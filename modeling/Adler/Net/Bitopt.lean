/-
  `chameleon-bitopt.c`: the attributes of a packet as a string of bits.

  `bit_setBits`, `getBits_of_field`: a value that is shorter than a byte, or a whole number of bytes
  long, is read back from wherever it was put. `pack_fields`, `unpack_fields`: so are all the
  attributes of a list, each behind the one before it, and nothing else is touched.
-/
import Adler.Lib.Bits
import Adler.Net.Packetbuf

namespace Adler.Net

open Lib

/-! ## Bits in the header -/

/-- `bitmask` -/
def bitmask : List ℕ := [0x00, 0x80, 0xc0, 0xe0, 0xf0, 0xf8, 0xfc, 0xfe, 0xff]

/-- `get_bits_in_byte` -/
def getBitsInByte (m : Mem) (src bitpos vallen : ℕ) : UInt8 :=
  let shiftedVal := ((m src).toNat <<< 8) ||| (m (src + 1)).toNat
  UInt8.ofNat ((((shiftedVal <<< bitpos) >>> 8) &&& bitmask.getD vallen 0) >>> (8 - vallen))

/-- `get_bits` -/
def getBits (dst : Mem) (m : Mem) (src bitpos vallen : ℕ) : Mem :=
  if vallen < 8 then Function.update dst 0 (getBitsInByte m src bitpos vallen)
  else
    let i := vallen / 8
    let bits := vallen &&& 7
    if bitpos = 0 then
      let dst := (List.range i).foldl (fun dst i => Function.update dst i (m (src + i))) dst
      if bits ≠ 0 then Function.update dst i (getBitsInByte m (src + i) 0 bits) else dst
    else
      let dst :=
        (List.range i).foldl (fun dst i => Function.update dst i (getBitsInByte m (src + i) bitpos 8)) dst
      if bits ≠ 0 then Function.update dst i (getBitsInByte m (src + i) bitpos bits) else dst

/-- `set_bits_in_byte` -/
def setBitsInByte (m : Mem) (target bitpos : ℕ) (val : UInt8) (vallen : ℕ) : Mem :=
  let shiftedVal := UInt16.ofNat (val.toNat <<< (8 - bitpos + 8 - vallen))
  let m := Function.update m target (m target ||| (shiftedVal >>> 8).toUInt8)
  Function.update m (target + 1) (m (target + 1) ||| (shiftedVal &&& 0xff).toUInt8)

/-- `set_bits` -/
def setBits (m : Mem) (ptr bitpos : ℕ) (val : Mem) (vallen : ℕ) : Mem :=
  if vallen < 8 then setBitsInByte m ptr bitpos (val 0) vallen
  else
    let i := vallen / 8
    let bits := vallen &&& 7
    if bitpos = 0 then
      let m := (List.range i).foldl (fun m i => Function.update m (ptr + i) (val i)) m
      if bits ≠ 0 then setBitsInByte m (ptr + i) 0 (val i >>> UInt8.ofNat (8 - bits)) bits else m
    else
      let m := (List.range i).foldl (fun m i => setBitsInByte m (ptr + i) bitpos (val i) 8) m
      if bits ≠ 0 then
        setBitsInByte m (ptr + i) 0 (val i >>> UInt8.ofNat (8 - bits + bitpos)) bits
      else m

theorem testBit_bitmask {v : ℕ} (hv : v ≤ 8) (i : ℕ) :
    (bitmask.getD v 0).testBit i = decide (8 - v ≤ i ∧ i < 8) := by
  by_cases hi : i < 8
  · have hall : ∀ v < 9, ∀ i < 8, (bitmask.getD v 0).testBit i = decide (8 - v ≤ i ∧ i < 8) := by
      decide +kernel
    exact hall v (by omega) i hi
  · have hlt : ∀ v < 9, bitmask.getD v 0 < 2 ^ 8 := by decide
    rw [Nat.testBit_lt_two_pow (Nat.lt_of_lt_of_le (hlt v (by omega))
      (Nat.pow_le_pow_right (by decide) (by omega))), eq_comm, decide_eq_false_iff_not]
    omega

/-- The value is made of the bits that were asked for. -/
theorem testBit_getBitsInByte (m : Mem) (src : ℕ) {bitpos vallen : ℕ} (hp : bitpos < 8) (hv : vallen ≤ 8)
    (j : ℕ) : (getBitsInByte m src bitpos vallen).toNat.testBit j =
      (decide (j < vallen) && m.bit (8 * src + (bitpos + vallen - 1 - j))) := by
  unfold getBitsInByte
  dsimp only
  rw [UInt8.toNat_ofNat', Nat.testBit_mod_two_pow, Nat.testBit_shiftRight, Nat.testBit_and,
    Nat.testBit_shiftRight, Nat.testBit_shiftLeft, testBit_bitmask hv]
  by_cases hj : j < vallen
  · have h1 : 8 + (8 - vallen + j) ≥ bitpos := by omega
    have h2 : 8 - vallen ≤ 8 - vallen + j ∧ 8 - vallen + j < 8 := by omega
    rw [show 8 + (8 - vallen + j) - bitpos = 15 - (bitpos + vallen - 1 - j) by omega,
      Mem.testBit_window m src (by omega)]
    simp only [h1, h2, hj, show j < 8 by omega, decide_true, and_self, Bool.true_and, Bool.and_true]
  · have h2 : ¬ (8 - vallen ≤ 8 - vallen + j ∧ 8 - vallen + j < 8) := by omega
    simp only [h2, hj, decide_false, Bool.false_and, Bool.and_false]

/-- The value where it goes in the sixteen bits from the first byte on. -/
theorem testBit_shifted {bitpos vallen : ℕ} {val : UInt8} (hp : bitpos < 8) (hv : vallen ≤ 8)
    (hval : val.toNat < 2 ^ vallen) {j : ℕ} (hj : j < 16) :
    (UInt16.ofNat (val.toNat <<< (8 - bitpos + 8 - vallen))).toNat.testBit (15 - j) =
      (decide (bitpos ≤ j ∧ j < bitpos + vallen) && val.toNat.testBit (bitpos + vallen - 1 - j)) := by
  rw [UInt16.toNat_ofNat', Nat.testBit_mod_two_pow, Nat.testBit_shiftLeft]
  simp only [show 15 - j < 16 by omega, decide_true, Bool.true_and]
  by_cases hlt : j < bitpos + vallen
  · rw [show 15 - j - (8 - bitpos + 8 - vallen) = bitpos + vallen - 1 - j by omega]
    by_cases hle : bitpos ≤ j
    · have hge : 15 - j ≥ 8 - bitpos + 8 - vallen := by omega
      simp only [hge, hle, hlt, decide_true, and_self, Bool.true_and]
    · have hbig : val.toNat < 2 ^ (bitpos + vallen - 1 - j) :=
        Nat.lt_of_lt_of_le hval (Nat.pow_le_pow_right (by decide) (by omega))
      rw [Nat.testBit_lt_two_pow hbig, Bool.and_false, Bool.and_false]
  · have hge : ¬ 15 - j ≥ 8 - bitpos + 8 - vallen := by omega
    simp only [hge, hlt, and_false, decide_false, Bool.false_and]

/-- The bits that are set are those of the value, behind `bitpos`, when it has no more than `vallen`. -/
theorem bit_setBitsInByte (m : Mem) (target : ℕ) {bitpos vallen : ℕ} {val : UInt8} (hp : bitpos < 8)
    (hv : vallen ≤ 8) (hval : val.toNat < 2 ^ vallen) (k : ℕ) :
    (setBitsInByte m target bitpos val vallen).bit k = (m.bit k ||
      (decide (8 * target + bitpos ≤ k ∧ k < 8 * target + bitpos + vallen) &&
        val.toNat.testBit (8 * target + bitpos + vallen - 1 - k))) := by
  by_cases hin : 8 * target ≤ k ∧ k < 8 * target + 16
  · obtain ⟨j, rfl⟩ : ∃ j, k = 8 * target + j := ⟨k - 8 * target, by omega⟩
    have hshift := testBit_shifted hp hv hval (j := j) (by omega)
    rw [show 8 * target + bitpos + vallen - 1 - (8 * target + j) = bitpos + vallen - 1 - j by omega,
      show decide (8 * target + bitpos ≤ 8 * target + j ∧
        8 * target + j < 8 * target + bitpos + vallen) = decide (bitpos ≤ j ∧ j < bitpos + vallen)
        from decide_eq_decide.mpr (by omega), ← hshift]
    unfold setBitsInByte
    dsimp only
    generalize UInt16.ofNat (val.toNat <<< (8 - bitpos + 8 - vallen)) = w
    by_cases h8 : j < 8
    · rw [Mem.bit_mul_add _ _ h8, Mem.bit_mul_add _ _ h8, Function.update_of_ne (by omega),
        Function.update_self, UInt8.toNat_or, Nat.testBit_or, UInt16.toNat_toUInt8,
        UInt16.toNat_shiftRight, Nat.testBit_mod_two_pow, Nat.testBit_shiftRight]
      simp only [show 7 - j < 8 by omega, decide_true, Bool.true_and, UInt16.toNat_ofNat,
        show 8 + (7 - j) = 15 - j by omega]
    · rw [show 8 * target + j = 8 * (target + 1) + (j - 8) by omega,
        Mem.bit_mul_add _ _ (by omega : j - 8 < 8), Mem.bit_mul_add _ _ (by omega : j - 8 < 8),
        Function.update_self, Function.update_of_ne (by omega), UInt8.toNat_or, Nat.testBit_or,
        UInt16.toNat_toUInt8, UInt16.toNat_and, Nat.testBit_mod_two_pow, Nat.testBit_and,
        show 7 - (j - 8) = 15 - j by omega]
      have hff : (0xff : UInt16).toNat.testBit (15 - j) = true := by
        have hall : ∀ i < 8, (0xff : UInt16).toNat.testBit i = true := by decide
        exact hall _ (by omega)
      rw [hff, Bool.and_true]
      simp only [show 15 - j < 8 by omega, decide_true, Bool.true_and]
  · have hout : ¬ (8 * target + bitpos ≤ k ∧ k < 8 * target + bitpos + vallen) := by omega
    simp only [hout, decide_false, Bool.false_and, Bool.or_false]
    refine Mem.bit_congr ?_
    unfold setBitsInByte
    rw [Function.update_of_ne (by omega), Function.update_of_ne (by omega)]

/-! ## Values in the header -/

/-- How many bytes a value of `len` bits takes. -/
def valBytes (len : ℕ) : ℕ := if len < 8 then 1 else len / 8

/-- Bit `j` of a value as it goes into the header. -/
def valBit (val : Mem) (len j : ℕ) : Bool :=
  if len < 8 then (val 0).toNat.testBit (len - 1 - j) else val.bit j

/-- A value of less than a byte, or of whole bytes. -/
def Fits (val : Mem) (len : ℕ) : Prop :=
  len < 8 ∧ (val 0).toNat < 2 ^ len ∨ 8 ≤ len ∧ len % 8 = 0

theorem and_seven_eq (len : ℕ) : len &&& 7 = len % 8 := Nat.and_two_pow_sub_one_eq_mod len 3

theorem bit_foldl_setBitsInByte (m : Mem) (ptr : ℕ) {bitpos : ℕ} (hp : bitpos < 8) (val : Mem) (n k : ℕ) :
    ((List.range n).foldl (fun m i => setBitsInByte m (ptr + i) bitpos (val i) 8) m).bit k =
      (m.bit k || (decide (8 * ptr + bitpos ≤ k ∧ k < 8 * ptr + bitpos + 8 * n) &&
        val.bit (k - (8 * ptr + bitpos)))) := by
  induction n with
  | zero =>
    have hout : ¬ (8 * ptr + bitpos ≤ k ∧ k < 8 * ptr + bitpos + 8 * 0) := by omega
    simp only [hout, decide_false, Bool.false_and, Bool.or_false]
    rfl
  | succ n ih =>
    rw [List.range_succ, List.foldl_append, List.foldl_cons, List.foldl_nil,
      bit_setBitsInByte _ _ hp (Nat.le_refl 8) (val n).toNat_lt, ih, Bool.or_assoc]
    congr 1
    by_cases hlow : 8 * ptr + bitpos ≤ k ∧ k < 8 * ptr + bitpos + 8 * n
    · have hhigh : ¬ (8 * (ptr + n) + bitpos ≤ k ∧ k < 8 * (ptr + n) + bitpos + 8) := by omega
      have hall : 8 * ptr + bitpos ≤ k ∧ k < 8 * ptr + bitpos + 8 * (n + 1) := by omega
      rw [decide_eq_true hlow, decide_eq_false hhigh, decide_eq_true hall, Bool.false_and, Bool.or_false]
    · by_cases hhigh : 8 * (ptr + n) + bitpos ≤ k ∧ k < 8 * (ptr + n) + bitpos + 8
      · have hall : 8 * ptr + bitpos ≤ k ∧ k < 8 * ptr + bitpos + 8 * (n + 1) := by omega
        rw [decide_eq_false hlow, decide_eq_true hhigh, decide_eq_true hall, Bool.false_and,
          Bool.false_or, Bool.true_and, Bool.true_and,
          show k - (8 * ptr + bitpos) = 8 * n + (k - (8 * (ptr + n) + bitpos)) by omega,
          Mem.bit_mul_add _ _ (by omega),
          show 8 * (ptr + n) + bitpos + 8 - 1 - k = 7 - (k - (8 * (ptr + n) + bitpos)) by omega]
      · have hall : ¬ (8 * ptr + bitpos ≤ k ∧ k < 8 * ptr + bitpos + 8 * (n + 1)) := by omega
        rw [decide_eq_false hlow, decide_eq_false hhigh, decide_eq_false hall]
        rfl

/-- `set_bits` puts the bits of the value there, and leaves the others alone. -/
theorem bit_setBits {m : Mem} (ptr : ℕ) {bitpos len : ℕ} {val : Mem} (hp : bitpos < 8) (hf : Fits val len)
    (hzero : ∀ k, 8 * ptr + bitpos ≤ k → k < 8 * ptr + bitpos + len → m.bit k = false) (k : ℕ) :
    (setBits m ptr bitpos val len).bit k =
      if 8 * ptr + bitpos ≤ k ∧ k < 8 * ptr + bitpos + len then
        valBit val len (k - (8 * ptr + bitpos))
      else m.bit k := by
  unfold setBits valBit
  rcases hf with ⟨h8, hval⟩ | ⟨h8, hmod⟩
  · rw [if_pos h8, bit_setBitsInByte m ptr hp h8.le hval]
    by_cases hin : 8 * ptr + bitpos ≤ k ∧ k < 8 * ptr + bitpos + len
    · rw [if_pos hin, if_pos h8, hzero k hin.1 hin.2]
      simp only [hin, and_self, decide_true, Bool.true_and, Bool.false_or]
      congr 1
      omega
    · rw [if_neg hin]
      simp only [hin, decide_false, Bool.false_and, Bool.or_false]
  · have h8' : ¬ len < 8 := by omega
    have hbits : ¬ (len &&& 7 ≠ 0) := by rw [and_seven_eq]; omega
    rw [if_neg h8', if_neg h8']
    dsimp only
    rw [if_neg hbits, if_neg hbits]
    by_cases hb0 : bitpos = 0
    · subst hb0
      rw [if_pos rfl, foldl_range_update]
      by_cases hin : 8 * ptr + 0 ≤ k ∧ k < 8 * ptr + 0 + len
      · obtain ⟨j, rfl⟩ : ∃ j, k = 8 * ptr + j := ⟨k - 8 * ptr, by omega⟩
        rw [if_pos hin, Mem.bit, if_pos (by omega), Mem.bit,
          show (8 * ptr + j) / 8 - ptr = (8 * ptr + j - (8 * ptr + 0)) / 8 by omega,
          show (8 * ptr + j) % 8 = (8 * ptr + j - (8 * ptr + 0)) % 8 by omega]
      · rw [if_neg hin]
        exact Mem.bit_congr (if_neg (by omega))
    · rw [if_neg hb0, bit_foldl_setBitsInByte m ptr hp, show 8 * (len / 8) = len by omega]
      by_cases hin : 8 * ptr + bitpos ≤ k ∧ k < 8 * ptr + bitpos + len
      · rw [if_pos hin, hzero k hin.1 hin.2]
        simp only [hin, and_self, decide_true, Bool.true_and, Bool.false_or]
      · rw [if_neg hin]
        simp only [hin, decide_false, Bool.false_and, Bool.or_false]

/-- `get_bits` finds the value whose bits are there. -/
theorem getBits_of_field {m : Mem} (src : ℕ) {bitpos len : ℕ} {val : Mem} (hp : bitpos < 8)
    (hf : Fits val len) (h : m.Field (8 * src + bitpos) len (valBit val len)) (dst : Mem) :
    getBits dst m src bitpos len = fun i => if i < valBytes len then val i else dst i := by
  unfold getBits valBytes
  unfold valBit at h
  rcases hf with ⟨h8, hval⟩ | ⟨h8, hmod⟩
  · simp only [h8, if_true] at h ⊢
    funext i
    by_cases hi : i = 0
    · subst hi
      rw [Function.update_self, if_pos Nat.one_pos]
      refine Mem.byte_ext fun j _ => ?_
      rw [testBit_getBitsInByte m src hp h8.le]
      by_cases hj : j < len
      · simp only [hj, decide_true, Bool.true_and]
        rw [show 8 * src + (bitpos + len - 1 - j) = 8 * src + bitpos + (len - 1 - j) by omega,
          h _ (by omega)]
        dsimp only
        rw [show len - 1 - (len - 1 - j) = j by omega]
      · rw [Nat.testBit_lt_two_pow (Nat.lt_of_lt_of_le hval
          (Nat.pow_le_pow_right (by decide) (by omega)))]
        simp only [hj, decide_false, Bool.false_and]
    · rw [Function.update_of_ne hi, if_neg (by omega)]
  · have h8' : ¬ len < 8 := by omega
    have hbits : ¬ (len &&& 7 ≠ 0) := by rw [and_seven_eq]; omega
    simp only [h8', if_false] at h ⊢
    rw [if_neg hbits, if_neg hbits]
    -- byte `i` of the value, from its eight bits
    have hbyte : ∀ i < len / 8, ∀ j < 8,
        (val i).toNat.testBit j = m.bit (8 * (src + i) + (bitpos + 8 - 1 - j)) := by
      intro i hi j hj
      rw [show 8 * (src + i) + (bitpos + 8 - 1 - j) = 8 * src + bitpos + (8 * i + (7 - j)) by omega,
        h _ (by omega)]
      dsimp only
      rw [Mem.bit_mul_add _ _ (by omega), show 7 - (7 - j) = j by omega]
    by_cases hb0 : bitpos = 0
    · subst hb0
      rw [if_pos rfl, foldl_update (fun i _ => m (src + i)) _ dst List.nodup_range]
      funext i
      by_cases hi : i < len / 8
      · simp only [List.mem_range, hi, if_true]
        refine Mem.byte_ext fun j hj => ?_
        rw [hbyte i hi j hj, show 0 + 8 - 1 - j = 7 - j by omega, Mem.bit_mul_add _ _ (by omega),
          show 7 - (7 - j) = j by omega]
      · simp only [List.mem_range, hi, if_false]
    · rw [if_neg hb0, foldl_update (fun i _ => getBitsInByte m (src + i) bitpos 8) _ dst
        List.nodup_range]
      funext i
      by_cases hi : i < len / 8
      · simp only [List.mem_range, hi, if_true]
        refine Mem.byte_ext fun j hj => ?_
        rw [hbyte i hi j hj, testBit_getBitsInByte m _ hp (Nat.le_refl 8)]
        simp only [hj, decide_true, Bool.true_and]
      · simp only [List.mem_range, hi, if_false]

/-! ## Lists of attributes -/

/-- An attribute or an address. -/
inductive AttrType
  | attr (type : Attr)
  | addr (type : AddrType)
  deriving DecidableEq

/-- `struct packetbuf_attrlist`, without the mark at its end. -/
abbrev Attrlist := List (AttrType × ℕ)

variable {n : ℕ}

/-- The bytes of an attribute where the packet keeps it, the low one first, or of an address. -/
def val (b : Packetbuf n) : AttrType → Mem
  | .attr type => fun i =>
      if i = 0 then (b.attrs type).toUInt8 else if i = 1 then (b.attrs type >>> 8).toUInt8 else 0
  | .addr type => fun i => if h : i < n then b.addrs type ⟨i, h⟩ else 0

/-- The attribute whose bytes these are. -/
def attrOf (val : Mem) : UInt16 := (val 0).toUInt16 + (val 1).toUInt16 <<< 8

/-- `header_size` -/
def headerSize (a : Attrlist) : ℕ := (a.map Prod.snd).sum

/-- The loop of `pack_header`. -/
def packAttrs (b : Packetbuf n) (hdrptr : ℕ) : Attrlist → Mem × ℕ → Mem × ℕ
  | [], s => s
  | (type, len) :: a, (m, bitptr) =>
    packAttrs b hdrptr a
      (setBits m (hdrptr + bitptr / 8) (bitptr &&& 7) (val b type) len, bitptr + len)

/-- The loop of `unpack_header`; `stack` is what an address on the stack held before. -/
def unpackAttrs (stack : Mem) (hdrptr : ℕ) : Attrlist → Packetbuf n × ℕ → Packetbuf n × ℕ
  | [], s => s
  | (type, len) :: a, (b, bitptr) =>
    let b :=
      match type with
      | .attr type => b.setAttr type
          (attrOf (getBits (fun _ => 0) b.mem (hdrptr + bitptr / 8) (bitptr &&& 7) len))
      | .addr type => b.setAddr type
          (fun i => getBits stack b.mem (hdrptr + bitptr / 8) (bitptr &&& 7) len i)
    unpackAttrs stack hdrptr a (b, bitptr + len)

/-- What the header has room for: attributes of up to eight or of sixteen bits with a value of no more
bits, and whole addresses. -/
def Packable (b : Packetbuf n) : AttrType × ℕ → Prop
  | (.attr type, len) => (len ≤ 8 ∨ len = 16) ∧ (b.attrs type).toNat < 2 ^ len
  | (.addr _, len) => len = 8 * n

/-- The attributes stand in the memory one behind the other. -/
def Stored (v : AttrType → Mem) (m : Mem) : ℕ → Attrlist → Prop
  | _, [] => True
  | pos, (type, len) :: a => m.Field pos len (valBit (v type) len) ∧ Stored v m (pos + len) a

/-- The packet with an attribute of another. -/
def copyAttr (b : Packetbuf n) (r : Packetbuf n) : AttrType × ℕ → Packetbuf n
  | (.attr type, _) => r.setAttr type (b.attrs type)
  | (.addr type, _) => r.setAddr type (b.addrs type)

theorem fits_of_packable (hn : 0 < n) {b : Packetbuf n} {type : AttrType} {len : ℕ}
    (h : Packable b (type, len)) : Fits (val b type) len := by
  cases type with
  | attr type =>
    obtain ⟨hlen, hval⟩ := h
    rcases Nat.lt_or_ge len 8 with h8 | h8
    · refine .inl ⟨h8, Nat.lt_of_le_of_lt ?_ hval⟩
      show (b.attrs type).toUInt8.toNat ≤ _
      rw [UInt16.toNat_toUInt8]
      exact Nat.mod_le ..
    · exact .inr ⟨h8, by omega⟩
  | addr type =>
    obtain rfl : len = 8 * n := h
    exact .inr ⟨by omega, by omega⟩

theorem bitptr_eq (hdrptr bitptr : ℕ) :
    8 * (hdrptr + bitptr / 8) + (bitptr &&& 7) = 8 * hdrptr + bitptr := by
  rw [and_seven_eq]
  omega

theorem bitptr_lt (bitptr : ℕ) : bitptr &&& 7 < 8 := by
  rw [and_seven_eq]
  omega

theorem headerSize_cons (e : AttrType × ℕ) (a : Attrlist) : headerSize (e :: a) = e.2 + headerSize a :=
  rfl

/-- The attributes stand wherever their bits do. -/
theorem stored_congr {v : AttrType → Mem} {m m' : Mem} {a : Attrlist} (pos : ℕ) {pos' : ℕ}
    (h : ∀ j < headerSize a, m'.bit (pos' + j) = m.bit (pos + j)) (hs : Stored v m pos a) :
    Stored v m' pos' a := by
  induction a generalizing pos pos' with
  | nil => trivial
  | cons e a ih =>
    obtain ⟨type, len⟩ := e
    rw [headerSize_cons] at h
    refine ⟨fun j hj => ?_, ih (pos + len) (fun j hj => ?_) hs.2⟩
    · rw [h j (by dsimp only; omega), hs.1 j hj]
    · rw [Nat.add_assoc, Nat.add_assoc]
      exact h _ (by dsimp only; omega)

/-- The attributes are put one behind the other, and nothing else is touched. -/
theorem pack_fields (hn : 0 < n) {b : Packetbuf n} (hdrptr : ℕ) {a : Attrlist} (m : Mem) (bitptr : ℕ)
    (ha : ∀ e ∈ a, Packable b e)
    (hzero : ∀ k, 8 * hdrptr + bitptr ≤ k → k < 8 * hdrptr + bitptr + headerSize a → m.bit k = false) :
    Stored (val b) (packAttrs b hdrptr a (m, bitptr)).1 (8 * hdrptr + bitptr) a ∧
      ∀ k, k < 8 * hdrptr + bitptr ∨ 8 * hdrptr + bitptr + headerSize a ≤ k →
        (packAttrs b hdrptr a (m, bitptr)).1.bit k = m.bit k := by
  induction a generalizing m bitptr with
  | nil => exact ⟨trivial, fun _ _ => rfl⟩
  | cons e a ih =>
    obtain ⟨type, len⟩ := e
    rw [headerSize_cons] at hzero ⊢
    dsimp only at hzero ⊢
    have hset := bit_setBits (hdrptr + bitptr / 8) (bitptr_lt bitptr)
      (fits_of_packable hn (ha _ (List.mem_cons_self ..)))
      (fun k h1 h2 => hzero k (by rw [bitptr_eq] at h1; exact h1) (by rw [bitptr_eq] at h2; omega))
    rw [bitptr_eq] at hset
    obtain ⟨hstored, hframe⟩ := ih
      (setBits m (hdrptr + bitptr / 8) (bitptr &&& 7) (val b type) len) (bitptr + len)
      (fun e he => ha e (List.mem_cons_of_mem _ he))
      (fun k h1 h2 => by rw [hset, if_neg (by omega)]; exact hzero k (by omega) (by omega))
    refine ⟨⟨fun j hj => ?_, ?_⟩, fun k hk => ?_⟩
    · rw [packAttrs, hframe _ (.inl (by omega)), hset, if_pos (by omega), Nat.add_sub_cancel_left]
    · rw [Nat.add_assoc]
      exact hstored
    · rw [packAttrs, hframe k (by omega), hset, if_neg (by omega)]

theorem attrOf_val {b : Packetbuf n} {type : Attr} {len : ℕ} (h : Packable b (.attr type, len)) :
    attrOf (fun i => if i < valBytes len then val b (.attr type) i else 0) = b.attrs type := by
  obtain ⟨hlen, hval⟩ := h
  have hlt := (b.attrs type).toNat_lt
  apply UInt16.toNat_inj.mp
  have hpow : len ≤ 8 → 2 ^ len ≤ 2 ^ 8 := Nat.pow_le_pow_right (by decide)
  by_cases h8 : len ≤ 8
  · have hone : valBytes len = 1 := by
      unfold valBytes
      split <;> omega
    have := hpow h8
    simp only [attrOf, hone, val, Nat.lt_irrefl, Nat.lt_one_iff, if_true, if_false, UInt16.toNat_add,
      UInt16.toNat_shiftLeft, UInt8.toNat_toUInt16, UInt16.toNat_toUInt8, UInt8.toNat_zero,
      Nat.zero_shiftLeft]
    omega
  · obtain rfl : len = 16 := hlen.resolve_left h8
    have htwo : valBytes 16 = 2 := rfl
    simp only [attrOf, htwo, val, Nat.zero_lt_two, Nat.one_lt_two, Nat.one_ne_zero, if_true, if_false,
      UInt16.toNat_add, UInt16.toNat_shiftLeft, UInt8.toNat_toUInt16, UInt16.toNat_toUInt8,
      UInt16.toNat_shiftRight, Nat.shiftLeft_eq, Nat.shiftRight_eq_div_pow, UInt16.toNat_ofNat,
      Nat.reducePow, Nat.reduceMod]
    omega

theorem addrOf_val (hn : 0 < n) (b : Packetbuf n) (type : AddrType) (stack : Mem) :
    (fun i : Fin n => if (i : ℕ) < valBytes (8 * n) then val b (.addr type) i else stack i) =
      b.addrs type := by
  have hbytes : valBytes (8 * n) = n := by
    unfold valBytes
    rw [if_neg (by omega)]
    omega
  funext i
  rw [hbytes, if_pos i.isLt]
  exact dif_pos i.isLt

/-- The attributes are found where they stand. -/
theorem unpack_fields (hn : 0 < n) {b : Packetbuf n} {stack : Mem} {hdrptr : ℕ} {a : Attrlist}
    {r : Packetbuf n} {bitptr : ℕ} (ha : ∀ e ∈ a, Packable b e)
    (hs : Stored (val b) r.mem (8 * hdrptr + bitptr) a) :
    (unpackAttrs stack hdrptr a (r, bitptr)).1 = a.foldl (copyAttr b) r := by
  induction a generalizing r bitptr with
  | nil => rfl
  | cons e a ih =>
    obtain ⟨type, len⟩ := e
    have hpack := ha _ (List.mem_cons_self ..)
    have hget := fun dst => getBits_of_field (hdrptr + bitptr / 8) (bitptr_lt bitptr)
      (fits_of_packable hn hpack) (by rw [bitptr_eq]; exact hs.1) dst
    have ha' : ∀ e ∈ a, Packable b e := fun e he => ha e (List.mem_cons_of_mem _ he)
    have hs' : Stored (val b) r.mem (8 * hdrptr + (bitptr + len)) a := by
      rw [← Nat.add_assoc]
      exact hs.2
    rw [List.foldl_cons]
    cases type with
    | attr type =>
      unfold unpackAttrs
      dsimp only
      rw [hget, attrOf_val hpack]
      exact ih ha' hs'
    | addr type =>
      unfold unpackAttrs
      dsimp only
      obtain rfl : len = 8 * n := hpack
      simp only [hget]
      rw [addrOf_val hn]
      exact ih ha' hs'

/-- Attributes that are set leave the rest of the packet alone. -/
theorem foldl_copyAttr_frame (b : Packetbuf n) (a : Attrlist) (r : Packetbuf n) :
    (a.foldl (copyAttr b) r).mem = r.mem ∧ (a.foldl (copyAttr b) r).hdrptr = r.hdrptr ∧
      (a.foldl (copyAttr b) r).bufptr = r.bufptr ∧ (a.foldl (copyAttr b) r).buflen = r.buflen := by
  induction a generalizing r with
  | nil => exact ⟨rfl, rfl, rfl, rfl⟩
  | cons e a ih =>
    obtain ⟨type | type, len⟩ := e
    · exact ih _
    · exact ih _

/-- The packets agree on an attribute. -/
def SameAttr (b r : Packetbuf n) : AttrType → Prop
  | .attr type => r.attrs type = b.attrs type
  | .addr type => r.addrs type = b.addrs type

theorem sameAttr_copyAttr (b r : Packetbuf n) (e : AttrType × ℕ) : SameAttr b (copyAttr b r e) e.1 := by
  obtain ⟨type | type, len⟩ := e
  · exact Function.update_self ..
  · exact Function.update_self ..

/-- An attribute that is right stays right, whatever others are copied. -/
theorem sameAttr_mono {b r : Packetbuf n} {type : AttrType} (h : SameAttr b r type)
    (e : AttrType × ℕ) : SameAttr b (copyAttr b r e) type := by
  by_cases he : e.1 = type
  · exact he ▸ sameAttr_copyAttr b r e
  · obtain ⟨t | t, len⟩ := e <;> obtain t' | t' := type
    · exact (Function.update_of_ne (fun h => he (congrArg _ h.symm)) ..).trans h
    · exact h
    · exact h
    · exact (Function.update_of_ne (fun h => he (congrArg _ h.symm)) ..).trans h

theorem sameAttr_foldl {b r : Packetbuf n} {a : Attrlist} :
    (∀ type, SameAttr b r type → SameAttr b (a.foldl (copyAttr b) r) type) ∧
      ∀ e ∈ a, SameAttr b (a.foldl (copyAttr b) r) e.1 := by
  induction a generalizing r with
  | nil => exact ⟨fun _ h => h, fun _ h => absurd h List.not_mem_nil⟩
  | cons e a ih =>
    obtain ⟨hkeep, hall⟩ := ih (r := copyAttr b r e)
    refine ⟨fun type h => hkeep type (sameAttr_mono h e), fun e' he' => ?_⟩
    rcases List.mem_cons.mp he' with rfl | he'
    · exact hkeep _ (sameAttr_copyAttr b r e')
    · exact hall e' he'

end Adler.Net
