/-
  `frame_decode` on any stream of bytes. The data state stops at an equality between `data_count` and
  the length byte, so the length byte decides everything.

  * `Inside`: what holds between two bytes while every length byte was in `2 .. RX_BUF_LEN - 1`.
  * `frameDecode_step`: such a byte is handled inside `data_buf`, keeps `Inside` and leaves fewer
    bytes to go before `DAT_INIT`.
  * `Runaway`: the states after any other length byte. They are never left, and every byte moves
    `data_count` on until `data_buf` is overrun.
  * `recovers_iff`: a stream is decoded inside `data_buf`, and the decoder comes back to `DAT_INIT`
    within 260 bytes, exactly when every length byte in it is in that range.
-/
import Adler.Serial.Frame
import Mathlib.Tactic.Ring

namespace Adler.Serial

open Lib (Mem Machine firstFailing firstFailing_eq firstFailing_le firstFailing_at)

variable {n : Nat} {clear : Decoder → Option Decoder} {ch : UInt8} {d : Decoder}

namespace Decoder

theorem put_eq (h : d.dataCount < n) : d.put n ch =
    some { d with
      dataBuf := Function.update d.dataBuf d.dataCount ch
      dataCount := d.dataCount + 1 } := if_pos h

theorem put_none (h : n ≤ d.dataCount) : d.put n ch = none := if_neg (Nat.not_lt.mpr h)

/-- No frame reaches `data_buf` from index 256 on. -/
def ZeroTail (d : Decoder) : Prop := ∀ i, 256 ≤ i → d.dataBuf i = 0

/-- The length byte of the frame being received. -/
structure Fits (n : Nat) (d : Decoder) : Prop where
  two_le : 2 ≤ d.frameLen.toNat
  lt : d.frameLen.toNat < n
  first : d.dataBuf 0 = d.frameLen
  dataLen : d.dataLen = d.frameLen - 1

/-- `data_count` and the length byte in each state. -/
def Place (n : Nat) (d : Decoder) : Prop :=
  match d.receiveState with
  | .init | .header | .len => d.dataCount = 0
  | .id => d.dataCount = 1 ∧ d.Fits n
  | .data => 2 ≤ d.dataCount ∧ d.dataCount ≤ d.frameLen.toNat ∧ d.Fits n
  | .check => d.dataCount = 0 ∧ d.Fits n

/-- The decoder between two bytes. -/
structure Inside (n : Nat) (d : Decoder) : Prop where
  zeroTail : d.ZeroTail
  place : d.Place n

/-- A bound on the bytes to go before `DAT_INIT`. -/
def left (d : Decoder) : Nat :=
  match d.receiveState with
  | .init => 0
  | .header => 258
  | .len => 257
  | .id => d.frameLen.toNat + 1
  | .data => d.frameLen.toNat + 2 - d.dataCount
  | .check => 1

/-- The states after a length byte that `data_count` never meets. -/
structure Runaway (n : Nat) (d : Decoder) : Prop where
  place : d.receiveState = .id ∧ d.dataCount = 1 ∨ d.receiveState = .data ∧ 2 ≤ d.dataCount
  bad : d.frameLen.toNat < 2 ∨ n ≤ d.frameLen.toNat

/-- The bytes of the frame being received that have been read. -/
def progress (d : Decoder) : Nat :=
  match d.receiveState with
  | .init => 0
  | .header => 1
  | .len => 2
  | .id => 3
  | .data => d.dataCount + 2
  | .check => d.frameLen.toNat + 3

/-- The states streams lead to. -/
def Reached (n : Nat) (d : Decoder) : Prop := d.Inside n ∨ d.Runaway n

theorem inside_start : start.Inside n := ⟨fun _ _ => rfl, rfl⟩

theorem left_le (d : Decoder) : d.left ≤ 258 := by
  have hlt : d.frameLen.toNat < 256 := UInt8.toNat_lt d.frameLen
  unfold left
  split <;> omega

theorem init_of_left (h : d.Inside n) (hz : d.left = 0) : d.receiveState = .init := by
  have hp := h.place
  unfold left at hz
  unfold Place at hp
  match hst : d.receiveState with
  | .init => rfl
  | .header | .len | .id | .check => simp [hst] at hz
  | .data =>
    simp only [hst] at hp hz
    omega

end Decoder

open Decoder

/-- A byte read as a length is in `2 .. RX_BUF_LEN - 1`. -/
def LenOk (n : Nat) (ch : UInt8) (d : Decoder) : Prop :=
  d.receiveState = .len → 2 ≤ ch.toNat ∧ ch.toNat < n

instance (n : Nat) (ch : UInt8) (d : Decoder) : Decidable (LenOk n ch d) :=
  inferInstanceAs (Decidable (_ → _))

/-- What a program does with `data_buf` after a frame stays inside it and changes nothing else. -/
def Clears (clear : Decoder → Option Decoder) : Prop :=
  ∀ d : Decoder, d.ZeroTail → ∃ buf, clear d = some { d with dataBuf := buf } ∧ ∀ i, 256 ≤ i → buf i = 0

theorem clears_some : Clears some := fun d h => ⟨d.dataBuf, rfl, h⟩

theorem clears_clearBuf : Clears NetInterface.clearBuf := by
  intro d h
  have hlen : firstFailing (fun i => d.dataBuf i ≠ 0) 500 < 500 := by
    rcases Nat.lt_or_ge (firstFailing (fun i => d.dataBuf i ≠ 0) 500) 500 with hlt | hge
    · exact hlt
    · have hall := Lib.firstFailing_below (fun i => d.dataBuf i ≠ 0) 500 256 (by omega)
      simp [h 256 (Nat.le_refl _)] at hall
  refine ⟨_, if_pos hlen, ?_⟩
  intro i hi
  simp only [h i hi, ite_self]

/-! ## One byte -/

theorem step_init (hs : d.receiveState = .init) : frameDecodeWith n clear ch d =
    some (if ch = header0 then { d with receiveState := .header } else d, []) := by
  simp only [frameDecodeWith, hs]

theorem step_header (hs : d.receiveState = .header) : frameDecodeWith n clear ch d =
    some ({ d with receiveState := if ch = header1 then .len else .init }, []) := by
  simp only [frameDecodeWith, hs]

theorem step_len (hs : d.receiveState = .len) (hlt : d.dataCount < n) :
    frameDecodeWith n clear ch d = some ({ d with
      dataBuf := Function.update d.dataBuf d.dataCount ch
      dataCount := d.dataCount + 1
      frameLen := ch
      dataLen := ch - 1
      receiveState := .id }, []) := by
  simp only [frameDecodeWith, hs, put_eq hlt, Option.map_some]

theorem step_id (hs : d.receiveState = .id) (hlt : d.dataCount < n) :
    frameDecodeWith n clear ch d = some ({ d with
      dataBuf := Function.update d.dataBuf d.dataCount ch
      dataCount := d.dataCount + 1
      frameId := ch
      receiveState := .data }, []) := by
  simp only [frameDecodeWith, hs, put_eq hlt, Option.map_some]

/-- A data byte before the last. -/
theorem step_data (hs : d.receiveState = .data) (hlt : d.dataCount < n)
    (hne : d.dataCount ≠ d.frameLen.toNat) : frameDecodeWith n clear ch d = some ({ d with
      dataBuf := Function.update d.dataBuf d.dataCount ch
      dataCount := d.dataCount + 1 }, []) := by
  have hne' : ¬ d.dataCount + 1 = d.frameLen.toNat + 1 := by omega
  simp only [frameDecodeWith, hs, put_eq hlt, Option.map_some, if_neg hne']

/-- The last data byte. -/
theorem step_last (hs : d.receiveState = .data) (hlt : d.dataCount < n)
    (heq : d.dataCount = d.frameLen.toNat) : frameDecodeWith n clear ch d = some ({ d with
      dataBuf := Function.update d.dataBuf d.dataCount ch
      dataCount := 0
      receiveState := .check }, []) := by
  have heq' : d.dataCount + 1 = d.frameLen.toNat + 1 := by omega
  simp only [frameDecodeWith, hs, put_eq hlt, Option.map_some, if_pos heq']

theorem step_check (hs : d.receiveState = .check) (hlt : (d.dataBuf 0).toNat < n) {d' : Decoder}
    (hclear : clear d = some d') : frameDecodeWith n clear ch d =
      some ({ d' with receiveState := .init }, if ch = getCheck d.dataBuf then [d.frame] else []) := by
  simp only [frameDecodeWith, hs, checkFrame, if_pos hlt, Option.bind_some, hclear, Option.map_some]

/-- A byte for which there is no room in `data_buf`. -/
theorem step_full (hs : d.receiveState = .len ∨ d.receiveState = .id ∨ d.receiveState = .data)
    (hge : n ≤ d.dataCount) : frameDecodeWith n clear ch d = none := by
  rcases hs with hs | hs | hs <;> simp only [frameDecodeWith, hs, put_none hge, Option.map_none]

theorem zeroTail_update {i : Nat} (h : d.ZeroTail) (hi : i < 256) :
    ∀ j, 256 ≤ j → Function.update d.dataBuf i ch j = 0 := by
  intro j hj
  rw [Function.update_of_ne (by omega)]
  exact h j hj

/-- One byte of a stream whose length bytes are in range. -/
theorem frameDecode_step (hc : Clears clear) (h : d.Inside n) (hok : LenOk n ch d)
    (hs : d.receiveState ≠ .init) :
    ∃ d' fs, frameDecodeWith n clear ch d = some (d', fs) ∧ d'.Inside n ∧ d'.left < d.left := by
  have hz := h.zeroTail
  have hp := h.place
  have hlen : d.frameLen.toNat < 256 := UInt8.toNat_lt d.frameLen
  have hch : ch.toNat < 256 := UInt8.toNat_lt ch
  match hst : d.receiveState with
  | .init => exact absurd hst hs
  | .header =>
    simp only [Place, hst] at hp
    refine ⟨_, _, step_header hst, ⟨hz, ?_⟩, ?_⟩
    · by_cases hh : ch = header1 <;> simpa [Place, hh] using hp
    · by_cases hh : ch = header1 <;> simp [left, hst, hh]
  | .len =>
    simp only [Place, hst] at hp
    obtain ⟨h2, hn⟩ := hok hst
    refine ⟨_, _, step_len hst (by omega), ⟨zeroTail_update hz (by omega), ?_, h2, hn, ?_, rfl⟩, ?_⟩
    · show d.dataCount + 1 = 1
      omega
    · show Function.update d.dataBuf d.dataCount ch 0 = ch
      rw [hp, Function.update_self]
    · simp only [left, hst]
      omega
  | .id =>
    simp only [Place, hst] at hp
    obtain ⟨hcount, h2, hn, h0, h1⟩ := hp
    refine ⟨_, _, step_id hst (by omega), ⟨zeroTail_update hz (by omega), ?_, ?_, h2, hn, ?_, h1⟩, ?_⟩
    · show 2 ≤ d.dataCount + 1
      omega
    · show d.dataCount + 1 ≤ d.frameLen.toNat
      omega
    · show Function.update d.dataBuf d.dataCount ch 0 = d.frameLen
      rw [Function.update_of_ne (by omega), h0]
    · simp only [left, hst]
      omega
  | .data =>
    simp only [Place, hst] at hp
    obtain ⟨hcount, hle, h2, hn, h0, h1⟩ := hp
    have hfirst : Function.update d.dataBuf d.dataCount ch 0 = d.frameLen := by
      rw [Function.update_of_ne (by omega), h0]
    by_cases hend : d.dataCount = d.frameLen.toNat
    · refine ⟨_, _, step_last hst (by omega) hend,
        ⟨zeroTail_update hz (by omega), rfl, h2, hn, hfirst, h1⟩, ?_⟩
      simp only [left, hst]
      omega
    · refine ⟨_, _, step_data hst (by omega) hend, ⟨zeroTail_update hz (by omega), ?_⟩, ?_⟩
      · simp only [Place, hst]
        exact ⟨by omega, by omega, h2, hn, hfirst, h1⟩
      · simp only [left, hst]
        omega
  | .check =>
    simp only [Place, hst] at hp
    obtain ⟨hcount, h2, hn, h0, h1⟩ := hp
    obtain ⟨buf, hclear, hbuf⟩ := hc d hz
    have hread : (d.dataBuf 0).toNat < n := by
      rw [h0]
      exact hn
    refine ⟨_, _, step_check hst hread hclear, ⟨hbuf, hcount⟩, ?_⟩
    simp [left, hst]

theorem inside_init (h : d.Inside n) (hs : d.receiveState = .init) :
    ∃ d', frameDecodeWith n clear ch d = some (d', []) ∧ d'.Inside n := by
  have hp := h.place
  simp only [Place, hs] at hp
  refine ⟨_, step_init hs, ?_⟩
  by_cases hh : ch = header0
  · rw [if_pos hh]
    exact ⟨h.zeroTail, hp⟩
  · rw [if_neg hh]
    exact h

/-- The byte that makes the decoder run away. -/
theorem runaway_of_bad (hn : 0 < n) (h : d.Inside n) (hok : ¬ LenOk n ch d) :
    ∃ d', frameDecodeWith n clear ch d = some (d', []) ∧ d'.Runaway n := by
  obtain ⟨hst, hbad⟩ := Classical.not_imp.mp hok
  have hp := h.place
  simp only [Place, hst] at hp
  refine ⟨_, step_len hst (by omega), .inl ⟨rfl, ?_⟩, ?_⟩
  · show d.dataCount + 1 = 1
    omega
  · show ch.toNat < 2 ∨ n ≤ ch.toNat
    omega

/-- A decoder that ran away only counts on. -/
theorem runaway_step (h : d.Runaway n) {d' : Decoder} {fs : List PortFrame}
    (hstep : frameDecodeWith n clear ch d = some (d', fs)) :
    d.dataCount < n ∧ d'.Runaway n ∧ d'.dataCount = d.dataCount + 1 ∧ fs = [] := by
  have hlt : d.dataCount < n := by
    rcases Nat.lt_or_ge d.dataCount n with hlt | hge
    · exact hlt
    · have hstate : d.receiveState = .id ∨ d.receiveState = .data := by
        rcases h.place with ⟨hst, -⟩ | ⟨hst, -⟩
        · exact .inl hst
        · exact .inr hst
      rw [step_full (.inr hstate) hge] at hstep
      cases hstep
  have hbad := h.bad
  rcases h.place with ⟨hst, hcount⟩ | ⟨hst, hcount⟩
  · rw [step_id hst hlt] at hstep
    cases hstep
    refine ⟨hlt, ⟨.inr ⟨rfl, ?_⟩, hbad⟩, rfl, rfl⟩
    show 2 ≤ d.dataCount + 1
    omega
  · rw [step_data hst hlt (by omega)] at hstep
    cases hstep
    refine ⟨hlt, ⟨.inr ⟨hst, ?_⟩, hbad⟩, rfl, rfl⟩
    show 2 ≤ d.dataCount + 1
    omega

theorem reached_step (hn : 0 < n) (hc : Clears clear) (h : d.Reached n) {d' : Decoder}
    {fs : List PortFrame} (hstep : frameDecodeWith n clear ch d = some (d', fs)) :
    d'.Reached n := by
  rcases h with hin | hrun
  · by_cases hok : LenOk n ch d
    · by_cases hs : d.receiveState = .init
      · obtain ⟨d₁, h₁, hin₁⟩ : ∃ d₁, frameDecodeWith n clear ch d = some (d₁, []) ∧ d₁.Inside n :=
          inside_init hin hs
        rw [hstep] at h₁
        cases h₁
        exact .inl hin₁
      · obtain ⟨d₁, fs₁, h₁, hin₁, -⟩ := frameDecode_step hc hin hok hs
        rw [hstep] at h₁
        cases h₁
        exact .inl hin₁
    · obtain ⟨d₁, h₁, hrun₁⟩ : ∃ d₁, frameDecodeWith n clear ch d = some (d₁, []) ∧ d₁.Runaway n :=
        runaway_of_bad hn hin hok
      rw [hstep] at h₁
      cases h₁
      exact .inr hrun₁
  · exact .inr (runaway_step hrun hstep).2.1

theorem runaway_not_init (h : d.Runaway n) : d.receiveState ≠ .init := by
  intro hinit
  rcases h.place with ⟨hst, -⟩ | ⟨hst, -⟩ <;> rw [hst] at hinit <;> cases hinit

/-! ## A stream -/

theorem inside_feed (hc : Clears clear) {bs : List UInt8} (h : d.Inside n)
    (hok : (frameDecodeWith n clear).All (LenOk n) bs d) :
    ∃ d' fs, (frameDecodeWith n clear).feed bs d = some (d', fs) ∧ d'.Inside n := by
  apply Machine.feed_total (I := Inside n) ?_ h hok
  intro ch d h hok
  by_cases hs : d.receiveState = .init
  · obtain ⟨d', hstep, h'⟩ := inside_init h hs
    exact ⟨d', [], hstep, h'⟩
  · obtain ⟨d', fs, hstep, h', -⟩ := frameDecode_step hc h hok hs
    exact ⟨d', fs, hstep, h'⟩

theorem init_of_feed (hc : Clears clear) {cs : List UInt8} (h : d.Inside n)
    (hok : (frameDecodeWith n clear).All (LenOk n) cs d) (hlen : 260 ≤ cs.length) :
    ∃ k, k ≤ 260 ∧ ∃ d' fs, (frameDecodeWith n clear).feed (cs.take k) d = some (d', fs) ∧
      d'.receiveState = .init := by
  have hleft := left_le d
  obtain ⟨k, hk, d', fs, hfeed, hinit⟩ :=
    Machine.feed_reaches (I := Inside n) (fun d => d.receiveState = .init) left
      (fun d h hz => init_of_left h hz) (fun ch d h hok hs => frameDecode_step hc h hok hs)
      h hok (by omega)
  exact ⟨k, by omega, d', fs, hfeed, hinit⟩

/-- What a decoder that ran away has counted after more bytes. -/
theorem runaway_feed {cs : List UInt8} {d' : Decoder} {fs : List PortFrame} (h : d.Runaway n)
    (hfeed : (frameDecodeWith n clear).feed cs d = some (d', fs)) :
    d'.Runaway n ∧ d'.dataCount = d.dataCount + cs.length ∧ (cs ≠ [] → d'.dataCount ≤ n) := by
  induction cs generalizing d fs with
  | nil =>
    cases hfeed
    exact ⟨h, rfl, fun hne => absurd rfl hne⟩
  | cons c cs ih =>
    obtain ⟨t, out₁, out₂, hstep, hrest, -⟩ := Machine.exists_of_feed_cons hfeed
    obtain ⟨hlt, ht, hcount, -⟩ := runaway_step h hstep
    obtain ⟨hu, hu', hle⟩ := ih ht hrest
    refine ⟨hu, ?_, ?_⟩
    · rw [hu', hcount, List.length_cons]
      omega
    · intro _
      rcases cs with _ | ⟨c', cs⟩
      · rw [hu', hcount]
        show d.dataCount + 1 + 0 ≤ n
        omega
      · exact hle (List.cons_ne_nil _ _)

/-- A decoder that ran away overruns `data_buf`. -/
theorem runaway_overrun {cs : List UInt8} (h : d.Runaway n) (hlen : n ≤ cs.length) (hne : cs ≠ []) :
    (frameDecodeWith n clear).feed cs d = none := by
  match hfeed : (frameDecodeWith n clear).feed cs d with
  | none => rfl
  | some (d', fs) =>
    obtain ⟨-, hcount, hle⟩ := runaway_feed h hfeed
    have hle' := hle hne
    have : 1 ≤ d.dataCount := by
      rcases h.place with ⟨-, hc⟩ | ⟨-, hc⟩ <;> omega
    omega

theorem reached_feed (hn : 0 < n) (hc : Clears clear) {bs : List UInt8} {d' : Decoder}
    {fs : List PortFrame} (h : d.Reached n)
    (hfeed : (frameDecodeWith n clear).feed bs d = some (d', fs)) : d'.Reached n :=
  Machine.feed_invariant (I := Reached n) (fun h hstep => reached_step hn hc h hstep) h hfeed

theorem count_of_id (h : d.Reached n) (hs : d.receiveState = .id) : d.dataCount = 1 := by
  rcases h with hin | hrun
  · have hp := hin.place
    simp only [Place, hs] at hp
    exact hp.1
  · rcases hrun.place with ⟨-, hcount⟩ | ⟨hst, -⟩
    · exact hcount
    · rw [hs] at hst
      cases hst

/-- There was room for a byte that was handled. -/
theorem room_of_step {r : Decoder × List PortFrame}
    (hs : d.receiveState = .len ∨ d.receiveState = .id ∨ d.receiveState = .data)
    (hstep : frameDecodeWith n clear ch d = some r) : d.dataCount < n := by
  by_contra hge
  rw [step_full hs (Nat.le_of_not_lt hge)] at hstep
  cases hstep

/-- A byte continues the frame being received or ends it. -/
theorem progress_step (h : d.Reached n) {d' : Decoder} {fs : List PortFrame}
    (hstep : frameDecodeWith n clear ch d = some (d', fs)) :
    d'.progress = d.progress + 1 ∨ d'.progress = 0 := by
  match hs : d.receiveState with
  | .init =>
    rw [step_init hs] at hstep
    cases hstep
    by_cases hh : ch = header0 <;> simp [progress, hs, hh]
  | .header =>
    rw [step_header hs] at hstep
    cases hstep
    by_cases hh : ch = header1 <;> simp [progress, hs, hh]
  | .len =>
    rw [step_len hs (room_of_step (.inl hs) hstep)] at hstep
    cases hstep
    simp [progress, hs]
  | .id =>
    rw [step_id hs (room_of_step (.inr (.inl hs)) hstep)] at hstep
    cases hstep
    simp [progress, hs, count_of_id h hs]
  | .data =>
    have hlt := room_of_step (.inr (.inr hs)) hstep
    by_cases hend : d.dataCount = d.frameLen.toNat
    · rw [step_last hs hlt hend] at hstep
      cases hstep
      simp [progress, hs, hend]
    · rw [step_data hs hlt hend] at hstep
      cases hstep
      simp [progress, hs]
  | .check =>
    simp only [frameDecodeWith, hs, Option.bind_eq_some_iff, Option.map_eq_some_iff] at hstep
    obtain ⟨r, -, d₁, -, heq⟩ := hstep
    cases heq
    exact .inr rfl

/-- Only the check state puts out a frame. -/
theorem check_of_delivered {d' : Decoder} {fs : List PortFrame} {f : PortFrame}
    (hstep : frameDecodeWith n clear ch d = some (d', fs)) (hf : f ∈ fs) :
    d.receiveState = .check ∧ f = d.frame := by
  match hs : d.receiveState with
  | .check =>
    simp only [frameDecodeWith, hs, checkFrame, Option.bind_eq_some_iff, Option.map_eq_some_iff]
      at hstep
    obtain ⟨⟨d₁, fs₁⟩, hcheck, d₂, -, heq⟩ := hstep
    cases heq
    split at hcheck
    · cases hcheck
      refine ⟨rfl, ?_⟩
      split at hf
      · exact List.mem_singleton.mp hf
      · exact absurd hf List.not_mem_nil
    · cases hcheck
  | .init =>
    rw [step_init hs] at hstep
    cases hstep
    exact absurd hf List.not_mem_nil
  | .header =>
    rw [step_header hs] at hstep
    cases hstep
    exact absurd hf List.not_mem_nil
  | .len =>
    rw [step_len hs (room_of_step (.inl hs) hstep)] at hstep
    cases hstep
    exact absurd hf List.not_mem_nil
  | .id =>
    rw [step_id hs (room_of_step (.inr (.inl hs)) hstep)] at hstep
    cases hstep
    exact absurd hf List.not_mem_nil
  | .data =>
    simp only [frameDecodeWith, hs, Option.map_eq_some_iff] at hstep
    obtain ⟨d₁, -, heq⟩ := hstep
    cases heq
    exact absurd hf List.not_mem_nil

/-- A frame is put out with the byte that follows everything else of it. -/
theorem delivered_step (h : d.Reached n) {d' : Decoder} {fs : List PortFrame} {f : PortFrame}
    (hstep : frameDecodeWith n clear ch d = some (d', fs)) (hf : f ∈ fs) :
    d.progress = f.data.length + 4 := by
  obtain ⟨hs, rfl⟩ := check_of_delivered hstep hf
  rcases h with hin | hrun
  · have hp := hin.place
    simp only [Place, hs] at hp
    obtain ⟨-, h2, -, -, hlen⟩ := hp
    have hone : d.dataLen.toNat = d.frameLen.toNat - 1 := by
      rw [hlen, UInt8.toNat_sub_of_le _ _ (by rw [UInt8.le_iff_toNat_le]; show 1 ≤ _; omega)]
      rfl
    simp only [progress, hs, Decoder.frame, Mem.length_read, hone]
    omega
  · rcases hrun.place with ⟨hst, -⟩ | ⟨hst, -⟩ <;> rw [hs] at hst <;> cases hst

/-- Unless the decoder was between two frames on the way, it went on by every byte. -/
theorem progress_feed (hn : 0 < n) (hc : Clears clear) {bs : List UInt8} {d' : Decoder}
    {fs : List PortFrame} (h : d.Reached n)
    (hfeed : (frameDecodeWith n clear).feed bs d = some (d', fs)) :
    d'.progress = d.progress + bs.length ∨ d'.progress < bs.length := by
  induction bs generalizing d fs with
  | nil =>
    cases hfeed
    exact .inl rfl
  | cons b bs ih =>
    obtain ⟨t, out₁, out₂, hstep, hrest, -⟩ := Machine.exists_of_feed_cons hfeed
    have hlater := ih (reached_step hn hc h hstep) hrest
    rw [List.length_cons]
    rcases progress_step h hstep with hnext | hnext <;> omega

/-- A frame takes its bytes: the part received before and the bytes of the run. -/
theorem length_of_delivered (hn : 0 < n) (hc : Clears clear) {bs : List UInt8} {d' : Decoder}
    {fs : List PortFrame} {f : PortFrame} (h : d.Reached n)
    (hfeed : (frameDecodeWith n clear).feed bs d = some (d', fs)) (hf : f ∈ fs) :
    f.data.length + 5 ≤ d.progress + bs.length := by
  obtain ⟨as, a, bs, t, out₁, u, out₂, rfl, has, ha, hout⟩ := Machine.feed_mem hfeed hf
  have hprog := progress_feed hn hc h has
  have hdel := delivered_step (reached_feed hn hc h has) ha hout
  rw [List.length_append, List.length_cons]
  omega

/-- With room for a byte the step is inside `data_buf`. -/
theorem step_of_room (hc : Clears clear) (h : d.Reached n) (hlt : d.dataCount < n) :
    ∃ d' fs, frameDecodeWith n clear ch d = some (d', fs) ∧ d'.dataCount ≤ d.dataCount + 1 := by
  match hs : d.receiveState with
  | .init =>
    refine ⟨_, _, step_init hs, ?_⟩
    split <;> simp
  | .header => exact ⟨_, _, step_header hs, Nat.le_succ _⟩
  | .len => exact ⟨_, _, step_len hs hlt, Nat.le_refl _⟩
  | .id => exact ⟨_, _, step_id hs hlt, Nat.le_refl _⟩
  | .data =>
    by_cases hend : d.dataCount = d.frameLen.toNat
    · exact ⟨_, _, step_last hs hlt hend, Nat.zero_le _⟩
    · exact ⟨_, _, step_data hs hlt hend, Nat.le_refl _⟩
  | .check =>
    rcases h with hin | hrun
    · have hp := hin.place
      simp only [Place, hs] at hp
      obtain ⟨-, -, hlen, h0, -⟩ := hp
      obtain ⟨buf, hclear, -⟩ := hc d hin.zeroTail
      exact ⟨_, _, step_check hs (by rw [h0]; exact hlen) hclear, Nat.le_succ _⟩
    · rcases hrun.place with ⟨hst, -⟩ | ⟨hst, -⟩ <;> rw [hs] at hst <;> cases hst

/-- A stream that fits into what is left of `data_buf` is decoded inside it. -/
theorem feed_of_room (hn : 0 < n) (hc : Clears clear) (bs : List UInt8) (h : d.Reached n)
    (hlen : d.dataCount + bs.length ≤ n) :
    ∃ d' fs, (frameDecodeWith n clear).feed bs d = some (d', fs) ∧
      d'.dataCount ≤ d.dataCount + bs.length := by
  induction bs generalizing d with
  | nil => exact ⟨d, [], rfl, Nat.le_refl _⟩
  | cons b bs ih =>
    rw [List.length_cons] at hlen
    obtain ⟨t, out₁, hstep, hcount⟩ : ∃ t out₁,
        frameDecodeWith n clear b d = some (t, out₁) ∧ t.dataCount ≤ d.dataCount + 1 :=
      step_of_room hc h (by omega)
    obtain ⟨u, out₂, hrest, hcount'⟩ := ih (reached_step hn hc h hstep) (by omega)
    refine ⟨u, out₁ ++ out₂, ?_, ?_⟩
    · rw [Machine.feed_cons hstep, hrest]
      rfl
    · rw [List.length_cons]
      omega

/-- The stream is decoded inside `data_buf`, and any 260 bytes with lengths in range that follow it
    bring the decoder back to `DAT_INIT`. -/
def Recovers (n : Nat) (m : Machine UInt8 Decoder PortFrame) (bs : List UInt8) : Prop :=
  ∃ d fs, m.feed bs start = some (d, fs) ∧
    ∀ cs, m.All (LenOk n) cs d → 260 ≤ cs.length →
      ∃ k, k ≤ 260 ∧ ∃ d' fs', m.feed (cs.take k) d = some (d', fs') ∧ d'.receiveState = .init

theorem all_of_runaway (cs : List UInt8) (h : d.Runaway n) :
    (frameDecodeWith n clear).All (LenOk n) cs d := by
  induction cs generalizing d with
  | nil => trivial
  | cons c cs ih =>
    refine ⟨?_, ?_⟩
    · intro hlen
      rcases h.place with ⟨hst, -⟩ | ⟨hst, -⟩ <;> rw [hst] at hlen <;> cases hlen
    · split
      · rename_i r hr
        exact ih (runaway_step h hr).2.1
      · trivial

/-- A stream with a length byte out of range leaves the decoder running away. -/
theorem runaway_of_not_all (hn : 0 < n) (hc : Clears clear) {bs : List UInt8}
    {fs : List PortFrame} (hbad : ¬ (frameDecodeWith n clear).All (LenOk n) bs start)
    (hfeed : (frameDecodeWith n clear).feed bs start = some (d, fs)) : d.Runaway n := by
  obtain ⟨bs₁, ch, bs₂, rfl, hall, d₁, fs₁, hfeed₁, hch⟩ := Machine.exists_of_not_all hbad
  obtain ⟨d₁', fs₁', hfeed₁', hin⟩ := inside_feed hc inside_start hall
  rw [hfeed₁] at hfeed₁'
  cases hfeed₁'
  obtain ⟨d₂, hstep, hrun⟩ := runaway_of_bad hn hin hch
  rw [Machine.feed_append hfeed₁, Machine.feed_cons_nil hstep, Option.map_eq_some_iff] at hfeed
  obtain ⟨⟨d₃, fs₃⟩, hfeed₃, heq⟩ := hfeed
  cases heq
  exact (runaway_feed hrun hfeed₃).1

theorem recoversWith_iff (hn : 0 < n) (hc : Clears clear) (bs : List UInt8) :
    Recovers n (frameDecodeWith n clear) bs ↔ (frameDecodeWith n clear).All (LenOk n) bs start := by
  constructor
  · rintro ⟨d, fs, hfeed, hback⟩
    by_contra hbad
    have hrun := runaway_of_not_all hn hc hbad hfeed
    obtain ⟨k, -, d', fs', hfeed', hinit⟩ := hback (List.replicate 260 0) (all_of_runaway _ hrun)
      (Nat.le_of_eq List.length_replicate.symm)
    exact runaway_not_init (runaway_feed hrun hfeed').1 hinit
  · intro hall
    obtain ⟨d, fs, hfeed, hin⟩ := inside_feed hc inside_start hall
    exact ⟨d, fs, hfeed, fun cs hok hlen => init_of_feed hc hin hok hlen⟩

/-- Both decoders stay inside `data_buf` and come back to `DAT_INIT` exactly on the streams whose
    length bytes are in `2 .. RX_BUF_LEN - 1`. -/
theorem recovers_iff (bs : List UInt8) :
    (Recovers 30 SerialThread.frameDecode bs ↔ SerialThread.frameDecode.All (LenOk 30) bs start) ∧
      (Recovers 500 NetInterface.frameDecode bs ↔
        NetInterface.frameDecode.All (LenOk 500) bs start) :=
  ⟨recoversWith_iff (by decide) clears_some bs, recoversWith_iff (by decide) clears_clearBuf bs⟩

/-- A length byte of 40 takes the gateway out of `data_buf`; after one of 1 `network_control` is not
    in `DAT_INIT` again, whatever comes. -/
theorem not_recovers :
    SerialThread.frameDecode.feed ([0x55, 0xAA, 40] ++ List.replicate 30 0) start = none ∧
      ∀ cs d fs, NetInterface.frameDecode.feed ([0x55, 0xAA, 1] ++ cs) start = some (d, fs) →
        d.receiveState ≠ .init := by
  refine ⟨by rfl, ?_⟩
  intro cs d fs hfeed
  obtain ⟨d₁, hfeed₁, hrun⟩ : ∃ d₁, NetInterface.frameDecode.feed [0x55, 0xAA, 1] start =
      some (d₁, []) ∧ d₁.Runaway 500 := ⟨_, rfl, .inl ⟨rfl, rfl⟩, .inl (by decide)⟩
  rw [Machine.feed_append hfeed₁, Option.map_eq_some_iff] at hfeed
  obtain ⟨⟨d₂, fs₂⟩, hfeed₂, heq⟩ := hfeed
  cases heq
  exact runaway_not_init (runaway_feed hrun hfeed₂).1

end Adler.Serial
