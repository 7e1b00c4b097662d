/-
  Cyclic redundancy checks in reflected form: a register that is shifted right, least significant
  bit first, and a polynomial that is added when a one falls out. The width and the polynomial are
  parameters. Nothing here names a program.

  * `feed_eq_iff`: two messages of one length have the same check exactly when their differences,
    read as a message of their own, have the check zero.
  * `burst_detected`: differences within as many consecutive bits as the register is wide.
  * `odd_detected`: an odd number of differences, when the polynomial has an odd number of bits.
  * `pair_missed_iff`: two differences, unless the register comes back to one over their distance.
  * `feed_bits`: a whole word at a time.
  * `Linear`: functions of a word that respect addition; `Linear.ext`, they are determined by their
    values at the powers of two.
-/
import Mathlib.Algebra.Group.Nat.Defs
import Mathlib.Logic.Function.Iterate

namespace Adler.Lib.Crc

variable {w : ℕ} {p : BitVec w}

/-- One shift of the register. -/
def step (p c : BitVec w) : BitVec w := (c >>> 1) ^^^ (if c.getLsbD 0 then p else 0#w)

/-- A bit in the least significant place. -/
def bit (w : ℕ) (b : Bool) : BitVec w := if b then 1#w else 0#w

/-- The register after the bits of a message. -/
def feed (p : BitVec w) (c : BitVec w) (bs : List Bool) : BitVec w :=
  bs.foldl (fun c b => step p (c ^^^ bit w b)) c

@[simp] theorem feed_nil (c : BitVec w) : feed p c [] = c := rfl

@[simp] theorem feed_cons (c : BitVec w) (b : Bool) (bs : List Bool) :
    feed p c (b :: bs) = feed p (step p (c ^^^ bit w b)) bs := rfl

theorem feed_append (c : BitVec w) (bs bs' : List Bool) :
    feed p c (bs ++ bs') = feed p (feed p c bs) bs' := List.foldl_append ..

/-! ## Linearity -/

theorem getLsbD_step (c : BitVec w) (i : ℕ) :
    (step p c).getLsbD i = Bool.xor (c.getLsbD (i + 1)) (c.getLsbD 0 && p.getLsbD i) := by
  unfold step
  cases c.getLsbD 0 <;> simp [Nat.add_comm 1 i]

theorem step_xor (c d : BitVec w) : step p (c ^^^ d) = step p c ^^^ step p d := by
  refine BitVec.eq_of_getLsbD_eq fun i _ => ?_
  simp only [BitVec.getLsbD_xor, getLsbD_step]
  cases c.getLsbD 0 <;> cases d.getLsbD 0 <;> cases p.getLsbD i <;> simp

theorem bit_xor (a b : Bool) : bit w (Bool.xor a b) = bit w a ^^^ bit w b := by
  cases a <;> cases b <;> simp [bit]

@[simp] theorem step_zero : step p 0#w = 0#w := by simp [step]

@[simp] theorem bit_false : bit w false = 0#w := rfl

theorem feed_xor (c d : BitVec w) (xs ys : List Bool) (h : xs.length = ys.length) :
    feed p (c ^^^ d) (List.zipWith Bool.xor xs ys) = feed p c xs ^^^ feed p d ys := by
  induction xs generalizing ys c d with
  | nil =>
    obtain rfl : ys = [] := List.length_eq_zero_iff.mp h.symm
    rfl
  | cons x xs ih =>
    cases ys with
    | nil => exact absurd h (by simp)
    | cons y ys =>
      simp only [List.zipWith_cons_cons, feed_cons]
      rw [← ih _ _ _ (Nat.succ_inj.mp h), ← step_xor, bit_xor]
      congr 2
      ac_rfl

/-- The check tells two messages apart exactly when it does not miss their differences. -/
theorem feed_eq_iff (c : BitVec w) (xs ys : List Bool) (h : xs.length = ys.length) :
    feed p c xs = feed p c ys ↔ feed p 0#w (List.zipWith Bool.xor xs ys) = 0#w := by
  rw [show (0#w) = c ^^^ c from BitVec.xor_self.symm, feed_xor c c xs ys h, BitVec.xor_self]
  exact ⟨fun he => by rw [he, BitVec.xor_self], BitVec.xor_eq_zero_iff.mp⟩

/-! ## Bursts -/

/-- A register that shifts to zero was zero, when the polynomial has its top bit. -/
theorem getLsbD_zero_of_step (hp : p.msb = true) {c : BitVec w} (h : (step p c).msb = false) :
    c.getLsbD 0 = false := by
  rw [BitVec.msb_eq_getLsbD_last] at hp h
  rw [getLsbD_step, hp, Bool.and_true] at h
  rcases Nat.eq_zero_or_pos w with rfl | hw
  · simp
  · rwa [BitVec.getLsbD_of_ge c (w - 1 + 1) (by omega), Bool.false_xor] at h

theorem step_injective (hp : p.msb = true) : Function.Injective (step p) := by
  intro c d h
  have hzero : step p (c ^^^ d) = 0#w := by rw [step_xor, h, BitVec.xor_self]
  have hlow : (c ^^^ d).getLsbD 0 = false := getLsbD_zero_of_step hp (by rw [hzero]; simp)
  refine BitVec.xor_eq_zero_iff.mp (BitVec.eq_of_getLsbD_eq fun i _ => ?_)
  rw [BitVec.getLsbD_zero]
  cases i with
  | zero => exact hlow
  | succ i =>
    have hbit : (step p (c ^^^ d)).getLsbD i = false := by rw [hzero, BitVec.getLsbD_zero]
    rwa [getLsbD_step, hlow, Bool.false_and, Bool.xor_false] at hbit

theorem feed_injective (hp : p.msb = true) (bs : List Bool) :
    Function.Injective fun c => feed p c bs := by
  induction bs with
  | nil => exact fun _ _ h => h
  | cons b bs ih =>
    intro c d h
    exact (BitVec.xor_left_inj (bit w b)).mp (step_injective hp (ih h))

/-- The messages of at most `w` bits with the check zero are those that begin with the register and
    go on with the zeros behind it. -/
theorem eq_bits_of_feed (hp : p.msb = true) (bs : List Bool) (hlen : bs.length ≤ w) (c : BitVec w)
    (h : feed p c bs = 0#w) (i : ℕ) : c.getLsbD i = bs.getD i false := by
  induction bs generalizing c i with
  | nil => rw [show c = 0#w from h]; simp
  | cons b bs ih =>
    have hlen : bs.length < w := hlen
    have hrest := ih (Nat.le_of_lt hlen) _ h
    -- the bit that falls out is not set, as the top bit is not
    have hlow : (c ^^^ bit w b).getLsbD 0 = false := by
      refine getLsbD_zero_of_step hp ?_
      rw [BitVec.msb_eq_getLsbD_last]
      exact (hrest (w - 1)).trans (by simp [List.getElem?_eq_none (show bs.length ≤ w - 1 by omega)])
    cases i with
    | zero =>
      rw [BitVec.getLsbD_xor] at hlow
      cases b <;> simpa [bit, show 0 < w by omega] using hlow
    | succ i =>
      have hbit := hrest i
      rw [getLsbD_step, hlow, Bool.false_and, Bool.xor_false, BitVec.getLsbD_xor] at hbit
      cases b <;> simpa [bit] using hbit

/-- **Bursts.** Messages that differ, and only within as many consecutive bits as the register is
    wide, have different checks. -/
theorem burst_detected (hp : p.msb = true) (c : BitVec w) (pre post : List Bool) {xs ys : List Bool}
    (hlen : xs.length = ys.length) (hw : xs.length ≤ w) (hne : xs ≠ ys) :
    feed p c (pre ++ xs ++ post) ≠ feed p c (pre ++ ys ++ post) := by
  intro h
  simp only [feed_append] at h
  have hdiff := (feed_eq_iff _ xs ys hlen).mp (feed_injective hp post h)
  refine hne (List.ext_getElem hlen fun i hx hy => ?_)
  have hbit := eq_bits_of_feed hp _ (by simp [hlen]; omega) _ hdiff i
  simpa [List.getElem?_zipWith, hx, hy] using hbit.symm

/-! ## Odd numbers of differences -/

/-- Whether an odd number of the bits below `n` is set. -/
def parity (c : BitVec w) : ℕ → Bool
  | 0 => false
  | n + 1 => Bool.xor (parity c n) (c.getLsbD n)

theorem parity_xor (c d : BitVec w) (n : ℕ) :
    parity (c ^^^ d) n = Bool.xor (parity c n) (parity d n) := by
  induction n with
  | zero => rfl
  | succ n ih =>
    simp only [parity, ih, BitVec.getLsbD_xor]
    cases parity c n <;> cases parity d n <;> simp

theorem parity_step (c : BitVec w) (n : ℕ) :
    parity (step p c) n =
      Bool.xor (Bool.xor (parity c (n + 1)) (c.getLsbD 0)) (c.getLsbD 0 && parity p n) := by
  induction n with
  | zero => simp [parity]
  | succ n ih =>
    rw [show parity (step p c) (n + 1) = Bool.xor (parity (step p c) n) ((step p c).getLsbD n) from rfl,
      ih, getLsbD_step]
    simp only [parity]
    cases c.getLsbD 0 <;> cases parity c n <;> cases c.getLsbD n <;> cases parity p n <;> simp

/-- A polynomial of odd parity keeps the parity of the register. -/
theorem parity_step_of_odd (hp : parity p w = true) (c : BitVec w) :
    parity (step p c) w = parity c w := by
  rw [parity_step, hp, Bool.and_true, parity, BitVec.getLsbD_of_ge c w (Nat.le_refl w)]
  simp

theorem parity_bit (b : Bool) {n : ℕ} (hn : 0 < n) (hw : 0 < w) : parity (bit w b) n = b := by
  induction n with
  | zero => exact absurd hn (Nat.lt_irrefl 0)
  | succ n ih =>
    rw [parity]
    rcases Nat.eq_zero_or_pos n with rfl | hn
    · cases b <;> simp [parity, bit, hw]
    · rw [ih hn]
      cases b <;> simp [bit, Nat.ne_of_gt hn]

theorem parity_feed (hp : parity p w = true) (hw : 0 < w) (c : BitVec w) (bs : List Bool) :
    parity (feed p c bs) w = Bool.xor (parity c w) (decide (bs.count true % 2 = 1)) := by
  induction bs generalizing c with
  | nil => simp
  | cons b bs ih =>
    rw [feed_cons, ih, parity_step_of_odd hp, parity_xor, parity_bit b hw hw, Bool.xor_assoc]
    congr 1
    cases b with
    | false => simp
    | true =>
      rw [List.count_cons_self, Bool.true_xor, ← decide_not]
      exact decide_eq_decide.mpr (by omega)

/-- **Odd numbers of differences** are never missed by a polynomial of odd parity. -/
theorem odd_detected (hp : parity p w = true) (hw : 0 < w) (c : BitVec w) {xs ys : List Bool}
    (hlen : xs.length = ys.length) (hodd : (List.zipWith Bool.xor xs ys).count true % 2 = 1) :
    feed p c xs ≠ feed p c ys := by
  intro h
  have hpar := parity_feed hp hw 0#w (List.zipWith Bool.xor xs ys)
  rw [(feed_eq_iff c xs ys hlen).mp h, decide_eq_true hodd] at hpar
  simp at hpar

/-! ## Pairs of differences -/

theorem feed_zeros (c : BitVec w) (n : ℕ) :
    feed p c (List.replicate n false) = (step p)^[n] c := by
  induction n generalizing c with
  | zero => rfl
  | succ n ih =>
    rw [List.replicate_succ, feed_cons, ih, bit_false, BitVec.xor_zero, Function.iterate_succ_apply]

/-- **Pairs of differences** are missed exactly when the register comes back to one over their
    distance. -/
theorem pair_missed_iff (hp : p.msb = true) (c : BitVec w) (pre mid post : List Bool) (a b : Bool) :
    feed p c (pre ++ a :: mid ++ b :: post) =
        feed p c (pre ++ (!a) :: mid ++ (!b) :: post) ↔
      (step p)^[mid.length + 1] 1#w = 1#w := by
  have hzeros : List.zipWith Bool.xor mid mid = List.replicate mid.length false :=
    List.ext_getElem (by simp) fun i _ _ => by simp
  have hdiff : List.zipWith Bool.xor (a :: mid ++ [b]) ((!a) :: mid ++ [!b]) =
      true :: List.replicate mid.length false ++ [true] := by
    rw [List.cons_append, List.cons_append, List.zipWith_cons_cons, List.zipWith_append rfl, hzeros]
    simp
  have hsplit : ∀ x y : Bool, feed p c (pre ++ x :: mid ++ y :: post) =
      feed p (feed p (feed p c pre) (x :: mid ++ [y])) post := by
    intro x y
    rw [← feed_append, ← feed_append]
    simp
  rw [hsplit, hsplit, (feed_injective hp post).eq_iff, feed_eq_iff _ _ _ (by simp), hdiff,
    feed_append, feed_cons, feed_nil, feed_cons, feed_zeros, ← Function.iterate_succ_apply]
  change step p ((step p)^[mid.length + 1] (0#w ^^^ bit w true) ^^^ bit w true) = 0#w ↔ _
  rw [show (0#w) ^^^ bit w true = 1#w by simp [bit], show bit w true = 1#w from rfl]
  constructor
  · intro h
    exact BitVec.xor_eq_zero_iff.mp (step_injective hp (h.trans step_zero.symm))
  · intro h
    rw [h, BitVec.xor_self, step_zero]

/-! ## A word at a time -/

/-- The low bits of a word, the lowest first. -/
def bits (n : ℕ) (v : BitVec w) : List Bool := (List.range n).map v.getLsbD

/-- Feeding a word in bit by bit is adding it and shifting. -/
theorem feed_bits (c v : BitVec w) (n : ℕ) :
    feed p c (bits n v) = (step p)^[n] (c ^^^ v) ^^^ (v >>> n) := by
  induction n with
  | zero =>
    show c = c ^^^ v ^^^ v >>> 0
    rw [BitVec.ushiftRight_zero, BitVec.xor_assoc, BitVec.xor_self, BitVec.xor_zero]
  | succ n ih =>
    have hlow : ((v >>> n) ^^^ bit w (v.getLsbD n)).getLsbD 0 = false := by
      rcases Nat.eq_zero_or_pos w with rfl | hw
      · simp
      · cases h : v.getLsbD n <;> simp [bit, h, hw]
    have hshift : step p ((v >>> n) ^^^ bit w (v.getLsbD n)) = v >>> (n + 1) := by
      refine BitVec.eq_of_getLsbD_eq fun i _ => ?_
      rw [getLsbD_step, hlow, Bool.false_and, Bool.xor_false]
      cases h : v.getLsbD n <;> simp [bit, Nat.add_assoc, Nat.add_comm 1 i]
    rw [bits, List.range_succ, List.map_append, feed_append]
    change step p (feed p c (bits n v) ^^^ bit w (v.getLsbD n)) = _
    rw [ih, BitVec.xor_assoc, step_xor, hshift, ← Function.iterate_succ_apply' (step p)]

/-! ## Linear functions of a word -/

/-- The function respects the addition of words. -/
def Linear {v : ℕ} (f : BitVec w → BitVec v) : Prop := ∀ a b, f (a ^^^ b) = f a ^^^ f b

namespace Linear

variable {v : ℕ} {f g : BitVec w → BitVec v}

theorem zero (hf : Linear f) : f 0#w = 0#v := by
  have := hf 0#w 0#w
  rwa [BitVec.xor_self, BitVec.xor_self] at this

theorem id : Linear fun x : BitVec w => x := fun _ _ => rfl

theorem shiftLeft (hf : Linear f) (n : ℕ) : Linear fun x => f x <<< n := fun a b => by
  simp only [hf a b, BitVec.shiftLeft_xor_distrib]

theorem shiftRight (hf : Linear f) (n : ℕ) : Linear fun x => f x >>> n := fun a b => by
  simp only [hf a b, BitVec.ushiftRight_xor_distrib]

theorem and (hf : Linear f) (m : BitVec v) : Linear fun x => f x &&& m := fun a b =>
  BitVec.eq_of_getLsbD_eq fun i _ => by simp [hf a b, Bool.and_xor_distrib_right]

theorem xor (hf : Linear f) (hg : Linear g) : Linear fun x => f x ^^^ g x := fun a b => by
  simp only [hf a b, hg a b]
  ac_rfl

theorem step_iterate (n : ℕ) : Linear (step p)^[n] := by
  induction n with
  | zero => exact id
  | succ n ih =>
    intro a b
    rw [Function.iterate_succ_apply, step_xor, ih]
    rfl

/-- A linear function is determined by its values at the powers of two. -/
theorem ext (hf : Linear f) (hg : Linear g)
    (h : ∀ i, i < w → f (BitVec.twoPow w i) = g (BitVec.twoPow w i)) (x : BitVec w) : f x = g x := by
  -- by the number of low bits in which `x` is not zero
  have hlow : ∀ n, n ≤ w → ∀ x : BitVec w, (∀ i, n ≤ i → x.getLsbD i = false) → f x = g x := by
    intro n
    induction n with
    | zero =>
      intro _ x hx
      have : x = 0#w := BitVec.eq_of_getLsbD_eq fun i _ => by simp [hx i (Nat.zero_le i)]
      rw [this, hf.zero, hg.zero]
    | succ n ih =>
      intro hn x hx
      cases hb : x.getLsbD n with
      | false =>
        refine ih (Nat.le_of_succ_le hn) x fun i hi => ?_
        rcases Nat.eq_or_lt_of_le hi with rfl | hi
        · exact hb
        · exact hx i hi
      | true =>
        have hclear : f (x ^^^ BitVec.twoPow w n) = g (x ^^^ BitVec.twoPow w n) := by
          refine ih (Nat.le_of_succ_le hn) _ fun i hi => ?_
          rw [BitVec.getLsbD_xor, BitVec.getLsbD_twoPow]
          rcases Nat.eq_or_lt_of_le hi with rfl | hi
          · simp [hb, Nat.lt_of_succ_le hn]
          · simp [hx i hi, Nat.ne_of_lt hi]
        rw [hf, hg, h n (Nat.lt_of_succ_le hn)] at hclear
        exact (BitVec.xor_left_inj (g (BitVec.twoPow w n))).mp hclear
  exact hlow w (Nat.le_refl w) x fun i hi => BitVec.getLsbD_of_ge x i hi

end Linear

end Adler.Lib.Crc
