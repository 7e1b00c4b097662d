/-
  When the gateway asks for the pages a summary offers. `handle_summary` is meant to be silent while one
  of these pages was asked for, or received data, a short while ago: it looks for the oldest
  `last_request` and the oldest `last_data` of them. Its loop takes a page's `last_data` where that page's
  `last_request`, not its `last_data`, is below the one kept so far.

  * `ShouldRequest`: the rule.
  * `schedules_iff`: what `handle_summary` does.
  * `suppression_iff`: it follows the rule for exactly the tables in which the last page that counts in
    the loop is as long without data as some page is.
-/
import Adler.Deluge.Boot
import Adler.Deluge.Timers
import Adler.Lib.Lowest
import Mathlib.Data.Finset.Max

namespace Adler.Deluge.Tx

open Lib (keepBelow keepBelow_iff keepBelow_map keepBelow_self_iff LastCount NoneBelow)
open Node
open Rx (secondsSince)

/-! ## The rule -/

/-- The summary offers pages of the table that the gateway misses, in the version it updates to. -/
structure OffersMore (m : DelugeMsgSummary) (s : Node) : Prop where
  version : m.version = s.updateVersion
  more : highestAvailablePage s < m.highestAvailable
  inTable : m.highestAvailable ≤ s.pageCount

instance (m : DelugeMsgSummary) (s : Node) : Decidable (OffersMore m s) :=
  decidable_of_iff (m.version = s.updateVersion ∧ highestAvailablePage s < m.highestAvailable ∧
      m.highestAvailable ≤ s.pageCount)
    ⟨fun h => ⟨h.1, h.2.1, h.2.2⟩, fun h => ⟨h.1, h.2, h.3⟩⟩

/-- How many whole seconds `t` lies back; 0 when it is not in the past. -/
def secondsBack (now t : UInt32) : Nat := (now.toNat - t.toNat) / clockSecond

/-- Page `i` has the oldest of these stamps among the first `n` pages. -/
def Oldest (stamp : Page → UInt32) (pages : Nat → Page) (n i : Nat) : Prop :=
  i < n ∧ ∀ j < n, stamp (pages i) ≤ stamp (pages j)

/-- The oldest of these stamps lies more than so many seconds back. -/
def OldestBack (stamp : Page → UInt32) (pages : Nat → Page) (n : Nat) (now : UInt32)
    (seconds : Nat) : Prop :=
  ∃ i, Oldest stamp pages n i ∧ seconds < secondsBack now (stamp (pages i))

/-- The rule: the oldest request among the pages offered is more than two rounds back and the oldest data
    more than one. -/
def ShouldRequest (now : UInt32) (m : DelugeMsgSummary) (s : Node) : Prop :=
  OldestBack Page.lastRequest s.pages m.highestAvailable now (2 * s.rInterval) ∧
    OldestBack Page.lastData s.pages m.highestAvailable now s.rInterval

/-- `handle_summary` schedules a request: it starts `rx_timer` when that has expired. -/
def Schedules (env : Env) (m : DelugeMsgSummary) (sender : RimeAddr) (s : Node) : Prop :=
  (handleSummary env m sender (stopRx s)).rxTimer = true

instance (env : Env) (m : DelugeMsgSummary) (sender : RimeAddr) (s : Node) :
    Decidable (Schedules env m sender s) := inferInstanceAs (Decidable (_ = _))

/-! ## The loop -/

/-- Page `k` is the last of the first `n` that counts in the loop: its `last_request` is before the
    `last_data` of the page that counted before it, for the first one before the clock. -/
def LastCounted (pages : Nat → Page) (now : UInt32) (n k : Nat) : Prop :=
  LastCount (fun i => (pages i).lastRequest) (fun i => (pages i).lastData) now n k

/-- If one of the pages was asked for long ago: the last page that counts is long without data, in 32-bit
    time, exactly when one of the pages is. -/
def StampsAgree (now : UInt32) (m : DelugeMsgSummary) (s : Node) : Prop :=
  (∃ i < m.highestAvailable, 2 * s.rInterval < secondsBack now (s.pages i).lastRequest) →
    ((∃ k, LastCounted s.pages now m.highestAvailable k ∧
        s.rInterval < secondsSince now (s.pages k).lastData) ↔
      ∃ i < m.highestAvailable, s.rInterval < secondsBack now (s.pages i).lastData)

variable {env : Env} {m : DelugeMsgSummary} {sender : RimeAddr} {s : Node} {pages : Nat → Page}
  {now : UInt32} {n seconds : Nat}

theorem oldestStamps_eq (pages : Nat → Page) (now : UInt32) (n : Nat) :
    oldestStamps pages now n =
      (keepBelow (fun i => (pages i).lastRequest) (fun i => (pages i).lastRequest) now n,
        keepBelow (fun i => (pages i).lastRequest) (fun i => (pages i).lastData) now n) := by
  induction n with
  | zero => rfl
  | succ n ih =>
    have hfold : oldestStamps pages now (n + 1) =
        (if (pages n).lastRequest < (oldestStamps pages now n).1 then (pages n).lastRequest
          else (oldestStamps pages now n).1,
        if (pages n).lastRequest < (oldestStamps pages now n).2 then (pages n).lastData
          else (oldestStamps pages now n).2) := by
      unfold oldestStamps
      rw [List.range_succ, List.foldl_append]
      rfl
    rw [hfold, ih]
    rfl

theorem secondsSince_eq_secondsBack {t : UInt32} (h : t.toNat ≤ now.toNat) :
    secondsSince now t = secondsBack now t := by
  rw [secondsSince, secondsBack, UInt32.toNat_sub_of_le now t (UInt32.le_iff_toNat_le.mpr h)]

/-- A stamp lies more than so many seconds back if a later one does. -/
theorem antitone_back (now seconds : Nat) :
    Antitone fun t : Nat => seconds < (now - t) / clockSecond := by
  intro a b hab hb
  exact Nat.lt_of_lt_of_le hb (Nat.div_le_div_right (Nat.sub_le_sub_left hab now))

/-- The loop finds the oldest request. -/
theorem oldestRequest_back : seconds < secondsSince now (oldestStamps pages now n).1 ↔
    ∃ i < n, seconds < secondsBack now (pages i).lastRequest := by
  have hmap := keepBelow_map UInt32.toNat (fun a b => UInt32.lt_iff_toNat_lt.symm)
    (fun i => (pages i).lastRequest) (fun i => (pages i).lastRequest) now n
  have hle : (keepBelow (fun i => (pages i).lastRequest) (fun i => (pages i).lastRequest) now n).toNat ≤
      now.toNat := by
    rw [← hmap]
    exact (keepBelow_self_iff (p := (· ≤ now.toNat)) (fun a b hab hb => Nat.le_trans hab hb) n).mpr
      (.inl (Nat.le_refl _))
  have hself : ¬ seconds < (now.toNat - now.toNat) / clockSecond := by
    rw [Nat.sub_self, Nat.zero_div]
    exact Nat.not_lt_zero seconds
  rw [oldestStamps_eq, secondsSince_eq_secondsBack hle, secondsBack, ← hmap,
    keepBelow_self_iff (antitone_back now.toNat seconds) n, or_iff_right hself]
  rfl

/-- The data it finds is that of the last page that counts. -/
theorem oldestData_since : seconds < secondsSince now (oldestStamps pages now n).2 ↔
    ∃ k, LastCounted pages now n k ∧ seconds < secondsSince now (pages k).lastData := by
  have hself : ¬ seconds < secondsSince now now := by
    rw [secondsSince, UInt32.sub_self]
    exact Nat.not_lt_zero seconds
  rw [oldestStamps_eq, keepBelow_iff fun t => seconds < secondsSince now t, or_iff_right]
  · rfl
  · exact fun h => hself h.2

/-- The oldest stamp lies that far back when any does. -/
theorem oldestBack_iff {stamp : Page → UInt32} :
    OldestBack stamp pages n now seconds ↔ ∃ i < n, seconds < secondsBack now (stamp (pages i)) := by
  constructor
  · rintro ⟨i, ⟨hi, -⟩, hback⟩
    exact ⟨i, hi, hback⟩
  · rintro ⟨i, hi, hback⟩
    obtain ⟨k, hk, hmin⟩ := Finset.exists_min_image (Finset.range n)
      (fun i => (stamp (pages i)).toNat) ⟨i, Finset.mem_range.mpr hi⟩
    refine ⟨k, ⟨Finset.mem_range.mp hk, ?_⟩, ?_⟩
    · intro j hj
      exact UInt32.le_iff_toNat_le.mpr (hmin j (Finset.mem_range.mpr hj))
    · exact antitone_back now.toNat seconds (hmin i (Finset.mem_range.mpr hi)) hback

/-! ## `handle_summary` -/

/-- The gateway once `handle_summary` has read the table. -/
def readTable (m : DelugeMsgSummary) (s : Node) : Node :=
  (noteSummary m (highestAvailablePage s) (scanPages s)).touchBelow m.highestAvailable

theorem offerRequest_inTable (h : m.highestAvailable ≤ s.pageCount) : offerRequest env m sender s =
    if 2 * s.rInterval < secondsSince env.now (oldestStamps s.pages env.now m.highestAvailable).1 ∧
      s.rInterval < secondsSince env.now (oldestStamps s.pages env.now m.highestAvailable).2
    then armExpiredRx (transition .rx (copySender sender (s.touchBelow m.highestAvailable)))
    else s.touchBelow m.highestAvailable := by
  rw [offerRequest, if_neg (Nat.not_lt_of_le h), ← ite_not]
  simp only [not_or, Nat.not_le]
  rfl

theorem handleSummary_offersMore (h : OffersMore m s) : handleSummary env m sender s =
    if 2 * s.rInterval < secondsSince env.now (oldestStamps s.pages env.now m.highestAvailable).1 ∧
      s.rInterval < secondsSince env.now (oldestStamps s.pages env.now m.highestAvailable).2
    then armExpiredRx (transition .rx (copySender sender (readTable m s))) else readTable m s := by
  have hreport : postReport m sender (highestAvailablePage s)
      (noteSummary m (highestAvailablePage s) (scanPages s)) =
        noteSummary m (highestAvailablePage s) (scanPages s) :=
    if_neg fun hsame => Nat.ne_of_gt h.more hsame.2
  have hnoted : (noteSummary m (highestAvailablePage s) (scanPages s)).pages = s.pages ∧
      (noteSummary m (highestAvailablePage s) (scanPages s)).rInterval = s.rInterval := ⟨rfl, rfl⟩
  have hinTable : m.highestAvailable ≤
      (noteSummary m (highestAvailablePage s) (scanPages s)).pageCount := h.inTable
  unfold handleSummary
  dsimp only
  rw [hreport, if_pos ⟨h.version, h.more⟩, offerRequest_inTable hinTable, hnoted.1, hnoted.2]
  rfl

/-- It schedules a request when the two stamps of the loop are old enough. -/
theorem schedules_stamps (h : OffersMore m s) : Schedules env m sender s ↔
    2 * s.rInterval < secondsSince env.now (oldestStamps s.pages env.now m.highestAvailable).1 ∧
      s.rInterval < secondsSince env.now (oldestStamps s.pages env.now m.highestAvailable).2 := by
  have hexpired : OffersMore m (stopRx s) := ⟨h.version, h.more, h.inTable⟩
  rw [Schedules, handleSummary_offersMore hexpired]
  split
  · rename_i hold
    exact ⟨fun _ => hold, fun _ => (enterRx_rxTimer _).mpr (.inl rfl)⟩
  · rename_i hnot
    exact ⟨fun hset => absurd hset Bool.false_ne_true, fun hold => absurd hold hnot⟩

/-- What `handle_summary` does with an offer. -/
theorem schedules_iff (h : OffersMore m s) : Schedules env m sender s ↔
    (∃ i < m.highestAvailable, 2 * s.rInterval < secondsBack env.now (s.pages i).lastRequest) ∧
      ∃ k, LastCounted s.pages env.now m.highestAvailable k ∧
        s.rInterval < secondsSince env.now (s.pages k).lastData := by
  rw [schedules_stamps h, oldestRequest_back, oldestData_since]

/-- A request that is scheduled goes to the sender; a pending `rx_timer` stays pending, and one whose
    event timer runs without it is not started. -/
theorem handleSummary_schedules (h : OffersMore m s) :
    ((handleSummary env m sender s).rxTimer = true ↔
      s.rxTimer = true ∨ s.rxExpired = true ∧ Schedules env m sender s) ∧
      (Schedules env m sender s → (handleSummary env m sender s).delugeState = .rx ∧
        (handleSummary env m sender s).summaryFrom = sender) := by
  have hread : (readTable m s).timers = s.timers := by
    rw [readTable, touchBelow_timers, noteSummary_timers, scanPages_timers]
  rw [schedules_stamps h, handleSummary_offersMore h]
  generalize readTable m s = t at hread ⊢
  have hpending : t.rxTimer = s.rxTimer := congrArg Timers.rx hread
  have hrunning : t.rxRunning = s.rxRunning := congrArg Timers.running hread
  split
  · rename_i hold
    refine ⟨?_, fun _ => ?_⟩
    · have hcopied : (copySender sender t).rxTimer = s.rxTimer ∧
          (copySender sender t).rxRunning = s.rxRunning := ⟨hpending, hrunning⟩
      rw [enterRx_rxTimer, hcopied.1, hcopied.2, or_comm, and_iff_left hold, rxExpired,
        Bool.not_eq_true']
    · unfold transition
      split
      · rename_i hrx
        exact ⟨hrx.symm, rfl⟩
      · split <;> exact ⟨rfl, rfl⟩
  · rename_i hnot
    rw [hpending]
    exact ⟨⟨.inl, fun hset => hset.resolve_right fun hset => hnot hset.2⟩,
      fun hold => absurd hold hnot⟩

/-- **The suppression rule.** `handle_summary` follows it for exactly the tables whose stamps agree. -/
theorem suppression_iff (h : OffersMore m s) (env : Env) (sender : RimeAddr) :
    (Schedules env m sender s ↔ ShouldRequest env.now m s) ↔ StampsAgree env.now m s := by
  rw [schedules_iff h, ShouldRequest, oldestBack_iff, oldestBack_iff, StampsAgree]
  exact and_congr_right_iff

/-! ## Two pages -/

/-- A page that was asked for and received data at these seconds. -/
def stamped (request data : Nat) : Page :=
  ⟨0, 0, .ofNat (request * clockSecond), .ofNat (data * clockSecond), 0, 1⟩

/-- A gateway that updates to version 1 and misses both pages. -/
def missingTwo (p q : Page) : Node :=
  { Node.zero with
    size := 2 * sPage
    updateVersion := 1
    entries := 2
    rInterval := tLow
    pages := fun i => if i = 0 then p else q }

/-- The summary of a node that has both. -/
def bothPages : DelugeMsgSummary := ⟨1, 2, 0⟩

/-- The clock stands at 2000 seconds. -/
def at2000 : Env := { quietEnv with now := .ofNat (2000 * clockSecond) }

/-- The second page was asked for after the first one's last data: only the first page counts. -/
theorem suppression_iff_two :
    Schedules at2000 bothPages 7 (missingTwo (stamped 100 1000) (stamped 1500 1600)) ↔
      ShouldRequest at2000.now bothPages (missingTwo (stamped 100 1000) (stamped 1500 1600)) := by
  apply (suppression_iff (by decide) at2000 7).mpr
  intro _
  have hcounts : LastCounted (missingTwo (stamped 100 1000) (stamped 1500 1600)).pages at2000.now 2 0 := by
    refine ⟨by decide, .first (fun i _ hi => absurd hi (Nat.not_lt_zero i)) (by decide +kernel), ?_⟩
    intro i hlo hi
    obtain rfl : i = 1 := by omega
    decide +kernel
  exact ⟨fun _ => ⟨0, by decide, by decide +kernel⟩, fun _ => ⟨0, hcounts, by decide +kernel⟩⟩

/-- The first page has been without data for 1000 seconds, but the second was asked for before that data
    came and has received some a second ago. The rule asks; `handle_summary` does not. -/
theorem suppression_overwritten :
    OffersMore bothPages (missingTwo (stamped 100 1000) (stamped 500 1999)) ∧
      ShouldRequest at2000.now bothPages (missingTwo (stamped 100 1000) (stamped 500 1999)) ∧
      ¬ Schedules at2000 bothPages 7 (missingTwo (stamped 100 1000) (stamped 500 1999)) := by
  refine ⟨by decide, ⟨?_, ?_⟩, by decide +kernel⟩
  · exact oldestBack_iff.mpr ⟨0, by decide, by decide +kernel⟩
  · exact oldestBack_iff.mpr ⟨0, by decide, by decide +kernel⟩

end Adler.Deluge.Tx
