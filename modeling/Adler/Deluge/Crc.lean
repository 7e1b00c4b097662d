/-
  The CRC of a packet as a code.

  * `crc16Add_eq`: the byte shuffling of `crc16_add` is eight shifts of a register with the reflected
    polynomial `x^16 + x^12 + x^5 + 1`, so that `crc16_data` is the check of `Lib.Crc` over the bits of
    the block, those of a byte from the lowest up.
  * `Garbled`: what it has to notice: a burst, an odd number of bits, or two bits.
  * `crc_garbled`: it notices all of these in a payload.
-/
import Adler.Deluge.Message
import Adler.Lib.Crc

namespace Adler.Deluge

open Lib.Crc

/-- `x^16 + x^12 + x^5 + 1`, the lowest power in the highest bit. -/
@[simp] abbrev crcPoly : BitVec 16 := 0x8408#16

/-- The bits of a block in the order in which the CRC takes them. -/
def blockBits (data : List UInt8) : List Bool := data.flatMap fun b => bits 8 b.toBitVec

@[simp] theorem length_blockBits (data : List UInt8) : (blockBits data).length = 8 * data.length := by
  induction data with
  | nil => rfl
  | cons b data ih =>
    have hcons : blockBits (b :: data) = bits 8 b.toBitVec ++ blockBits data := rfl
    rw [hcons, List.length_append, ih, List.length_cons]
    simp only [bits, List.length_map, List.length_range]
    omega

/-! ## The register -/

/-- `crc16_add` behind its first line. -/
def crcMix (x : BitVec 16) : BitVec 16 :=
  let x := (x >>> 8) ||| (x <<< 8)
  let x := x ^^^ ((x &&& 0xff00#16) <<< 4)
  let x := x ^^^ ((x >>> 8) >>> 4)
  x ^^^ ((x &&& 0xff00#16) >>> 5)

theorem crc16Add_mix (b : UInt8) (acc : UInt16) :
    (crc16Add b acc).toBitVec = crcMix (acc.toBitVec ^^^ b.toBitVec.setWidth 16) := rfl

/-- The bytes change places without meeting. -/
theorem swap_eq_xor (x : BitVec 16) : (x >>> 8) ||| (x <<< 8) = (x >>> 8) ^^^ (x <<< 8) := by
  refine BitVec.eq_of_getLsbD_eq fun i _ => ?_
  by_cases hi : i < 8
  · simp [hi]
  · simp [hi, BitVec.getLsbD_of_ge x (8 + i) (by omega)]

theorem crcMix_linear : Linear crcMix := by
  have hswap : Linear fun x : BitVec 16 => (x >>> 8) ||| (x <<< 8) := by
    simp only [swap_eq_xor]
    exact (Linear.id.shiftRight 8).xor (Linear.id.shiftLeft 8)
  have hleft := hswap.xor ((hswap.and 0xff00#16).shiftLeft 4)
  have hright := hleft.xor ((hleft.shiftRight 8).shiftRight 4)
  exact hright.xor ((hright.and 0xff00#16).shiftRight 5)

/-- The whole of `crc16_add` behind its first line is eight shifts. -/
theorem crcMix_eq (x : BitVec 16) : crcMix x = (step crcPoly)^[8] x :=
  crcMix_linear.ext (Linear.step_iterate 8) (by decide) x

theorem bits_setWidth {v w : ℕ} (x : BitVec v) {n : ℕ} (hn : n ≤ w) :
    bits n (x.setWidth w) = bits n x := by
  refine List.map_congr_left fun i hi => ?_
  have hi := List.mem_range.mp hi
  simp [Nat.lt_of_lt_of_le hi hn]

theorem crc16Add_eq (b : UInt8) (acc : UInt16) :
    (crc16Add b acc).toBitVec = feed crcPoly acc.toBitVec (bits 8 b.toBitVec) := by
  have hhigh : b.toBitVec.setWidth 16 >>> 8 = 0#16 := by
    refine BitVec.eq_of_getLsbD_eq fun i _ => ?_
    simp
  rw [crc16Add_mix, crcMix_eq, ← bits_setWidth b.toBitVec (show 8 ≤ 16 by decide), feed_bits, hhigh,
    BitVec.xor_zero]

theorem crc16Data_eq (data : List UInt8) (acc : UInt16) :
    (crc16Data data acc).toBitVec = feed crcPoly acc.toBitVec (blockBits data) := by
  induction data generalizing acc with
  | nil => rfl
  | cons b data ih =>
    have hcons : blockBits (b :: data) = bits 8 b.toBitVec ++ blockBits data := rfl
    rw [hcons, feed_append, ← crc16Add_eq]
    exact ih _

/-! ## What it notices -/

/-- Bits that were garbled on the way: within 16 consecutive ones, an odd number, or two. -/
inductive Garbled : List Bool → List Bool → Prop
  | burst {pre xs ys post : List Bool} : xs.length = ys.length → xs.length ≤ 16 → xs ≠ ys →
      Garbled (pre ++ xs ++ post) (pre ++ ys ++ post)
  | odd {xs ys : List Bool} : xs.length = ys.length →
      (List.zipWith Bool.xor xs ys).count true % 2 = 1 → Garbled xs ys
  | pair {pre mid post : List Bool} {a b : Bool} :
      Garbled (pre ++ a :: mid ++ b :: post) (pre ++ (!a) :: mid ++ (!b) :: post)

/-- The register holds one again after at most `n` shifts. -/
def comesBack (p : BitVec 16) : ℕ → BitVec 16 → Bool
  | 0, _ => false
  | n + 1, c => c = 1#16 || comesBack p n (step p c)

theorem iterate_ne_of_comesBack {p : BitVec 16} {n : ℕ} {c : BitVec 16}
    (h : comesBack p n c = false) : ∀ k, k < n → (step p)^[k] c ≠ 1#16 := by
  induction n generalizing c with
  | zero => exact fun k hk => absurd hk (Nat.not_lt_zero k)
  | succ n ih =>
    obtain ⟨hne, hrest⟩ := Bool.or_eq_false_iff.mp h
    intro k hk
    cases k with
    | zero => exact of_decide_eq_false hne
    | succ k => exact ih hrest k (Nat.lt_of_succ_lt_succ hk)

/-- No two bits of a payload are a period of the register apart. -/
theorem crcPoly_period {k : ℕ} (hk : k < 512) : (step crcPoly)^[k + 1] 1#16 ≠ 1#16 :=
  iterate_ne_of_comesBack (c := step crcPoly 1#16) (n := 512) (by decide +kernel) k hk

theorem crcPoly_msb : crcPoly.msb = true := by decide

theorem crcPoly_parity : parity crcPoly 16 = true := by decide

/-- **The CRC of a payload that was garbled is another one.** -/
theorem crc_garbled {data data' : List UInt8} (hlen : data.length ≤ sPkt)
    (h : Garbled (blockBits data) (blockBits data')) (acc : UInt16) :
    crc16Data data acc ≠ crc16Data data' acc := by
  intro heq
  have hfeed : feed crcPoly acc.toBitVec (blockBits data) =
      feed crcPoly acc.toBitVec (blockBits data') := by
    rw [← crc16Data_eq, ← crc16Data_eq, heq]
  have hbits : (blockBits data).length ≤ 512 := by
    rw [length_blockBits]
    exact Nat.mul_le_mul_left 8 hlen
  revert hfeed hbits
  generalize blockBits data = xs at h
  generalize blockBits data' = ys at h
  cases h with
  | burst hl h16 hne => exact fun hfeed _ => burst_detected crcPoly_msb _ _ _ hl h16 hne hfeed
  | odd hl hodd => exact fun hfeed _ => odd_detected crcPoly_parity (by decide) _ hl hodd hfeed
  | @pair pre mid post a b =>
    intro hfeed hbits
    refine crcPoly_period (k := mid.length) ?_ ((pair_missed_iff crcPoly_msb _ _ _ _ a b).mp hfeed)
    simp only [List.length_append, List.length_cons] at hbits
    omega

theorem crc_garbled_one_bit :
    crc16Data (List.replicate 64 0) 0 ≠ crc16Data (1 :: List.replicate 63 0) 0 :=
  crc_garbled (by decide) (.odd (by decide +kernel) (by decide +kernel)) 0

end Adler.Deluge
