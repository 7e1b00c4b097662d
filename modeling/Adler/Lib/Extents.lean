/-
  Stores that are walked from header to header: a page is free, stands alone, or starts an extent
  of several pages. Only the headers of the pages in `B`, the stops of the walk, mean anything;
  the pages inside an extent hold data. Pages lie in sectors, and a page that is free is followed by
  free pages up to the end of its sector, so that a walk may jump there. Nothing here names a
  program.

  * `Sectors`: the end of a page's sector, as a function.
  * `Tiled`: every stop leads to a stop, and no stop lies inside an extent.
  * `Tiled.disjoint`: extents do not overlap.
  * `Scan`, `Scan.next`: a walk over pages that are not free, on its way to the first that is.
  * `Room`, `Tiled.alloc`: free pages in a row become an extent.
  * `Tiled.erase`: a sector becomes free, and what reaches out of it is cut into single pages.
  * `Clear`: a dead extent that reaches out of its sector shares that sector with no live one. Then
    a sector without live pages is never entered by an extent of a sector that stays.
-/
import Mathlib.Data.Nat.Basic
import Mathlib.Order.Basic

namespace Adler.Lib

/-- What the header of a page says. -/
inductive Cell where
  | free
  | single
  | extent (pages : Nat)
deriving DecidableEq

/-- `e b` is the first page behind the sector of `b`. -/
structure Sectors (e : Nat → Nat) : Prop where
  lt : ∀ b, b < e b
  eq : ∀ b q, b ≤ q → q < e b → e q = e b

namespace Sectors

variable {e : Nat → Nat}

theorem mono (he : Sectors e) {b q : Nat} (h : b ≤ q) : e b ≤ e q := by
  by_cases hq : q < e b
  · exact (he.eq b q h hq).ge
  · exact (Nat.le_of_not_lt hq).trans (he.lt q).le

end Sectors

/-- Where the walk goes on. -/
def Cell.next (e : Nat → Nat) (b : Nat) : Cell → Nat
  | free => e b
  | single => b + 1
  | extent n => b + n

/-- The stops `B` of the walk over `N` pages, with extents of less than `M` pages. -/
structure Tiled (e : Nat → Nat) (N M : Nat) (view : Nat → Cell) (B : Nat → Prop) : Prop where
  start : B 0
  next : ∀ b, B b → b < N → B ((view b).next e b)
  free : ∀ b, B b → b < N → view b = .free → ∀ q, b ≤ q → q < e b → B q ∧ view q = .free
  extent : ∀ b n, B b → b < N → view b = .extent n →
    1 ≤ n ∧ n < M ∧ b + n ≤ N ∧ ∀ q, b < q → q < b + n → ¬ B q

section

variable {e : Nat → Nat} {N M page : Nat} {view view' : Nat → Cell} {B : Nat → Prop}

namespace Tiled

theorem congr (h : Tiled e N M view B) (hv : ∀ b, B b → b < N → view' b = view b)
    (hN : ∀ b, b < N → e b ≤ N) : Tiled e N M view' B where
  start := h.start
  next := by
    intro b hb hlt
    rw [hv b hb hlt]
    exact h.next b hb hlt
  free := by
    intro b hb hlt hfree q hbq hq
    rw [hv b hb hlt] at hfree
    obtain ⟨hBq, hvq⟩ := h.free b hb hlt hfree q hbq hq
    exact ⟨hBq, (hv q hBq (hq.trans_le (hN b hlt))).trans hvq⟩
  extent := by
    intro b n hb hlt hext
    rw [hv b hb hlt] at hext
    exact h.extent b n hb hlt hext

/-- A later stop lies behind an extent. -/
theorem end_le (h : Tiled e N M view B) {b n c : Nat} (hb : B b) (hlt : b < N)
    (hext : view b = .extent n) (hc : B c) (hbc : b < c) : b + n ≤ c := by
  by_contra hin
  exact (h.extent b n hb hlt hext).2.2.2 c hbc (by omega) hc

/-- There are no stops on the way to the next. -/
theorem next_le (h : Tiled e N M view B) {b c : Nat} (hb : B b) (hlt : b < N)
    (hused : view b ≠ .free) (hc : B c) (hbc : b < c) : (view b).next e b ≤ c := by
  match hv : view b with
  | .free => exact absurd hv hused
  | .single => exact hbc
  | .extent n => exact h.end_le hb hlt hv hc hbc

/-- The walk does not leave the store. -/
theorem next_bound (h : Tiled e N M view B) {b : Nat} (hb : B b) (hlt : b < N)
    (hN : ∀ b, b < N → e b ≤ N) : (view b).next e b ≤ N := by
  match hv : view b with
  | .free => exact hN b hlt
  | .single => exact hlt
  | .extent n => exact (h.extent b n hb hlt hv).2.2.1

/-- The walk gets on. -/
theorem lt_next (h : Tiled e N M view B) (he : Sectors e) {b : Nat} (hb : B b) (hlt : b < N) :
    b < (view b).next e b := by
  match hv : view b with
  | .free => exact he.lt b
  | .single => exact Nat.lt_succ_self b
  | .extent n =>
    have := (h.extent b n hb hlt hv).1
    simp only [Cell.next]
    omega

/-- Two extents do not overlap. -/
theorem disjoint (h : Tiled e N M view B) {b n c m : Nat} (hb : B b) (hbN : b < N)
    (hbext : view b = .extent n) (hc : B c) (hcN : c < N) (hcext : view c = .extent m)
    (hne : b ≠ c) {q : Nat} (hbq : b ≤ q) (hqb : q < b + n) : ¬ (c ≤ q ∧ q < c + m) := by
  rintro ⟨hcq, hqc⟩
  rcases Nat.lt_or_gt_of_ne hne with hlt | hlt
  · have := h.end_le hb hbN hbext hc hlt
    omega
  · have := h.end_le hc hcN hcext hb hlt
    omega

end Tiled

/-! ## Walks -/

/-- The walk is at `page`, and has left no free page of this page's sector behind. -/
structure Scan (e : Nat → Nat) (N : Nat) (view : Nat → Cell) (B : Nat → Prop) (page : Nat) :
    Prop where
  stop : B page
  le : page ≤ N
  first : ∀ q, B q → q < N → view q = .free → e q = e page → page ≤ q

/-- The walk over a page that is not free. -/
theorem Scan.next (h : Scan e N view B page) (he : Sectors e) (ht : Tiled e N M view B)
    (hlt : page < N) (hused : view page ≠ .free) :
    Scan e N view B ((view page).next e page) := by
  have hstop := ht.next page h.stop hlt
  have hnext : page < (view page).next e page ∧ (view page).next e page ≤ N ∧
      ∀ q, page < q → q < (view page).next e page → ¬ B q := by
    match hv : view page with
    | .free => exact absurd hv hused
    | .single => exact ⟨Nat.lt_succ_self _, hlt, fun q h1 h2 => absurd h2 (by simp only [Cell.next]; omega)⟩
    | .extent n =>
      obtain ⟨h1, -, h2, hin⟩ := ht.extent page n h.stop hlt hv
      exact ⟨by simp only [Cell.next]; omega, h2, hin⟩
  obtain ⟨hlater, hle, hin⟩ := hnext
  refine ⟨hstop, hle, ?_⟩
  intro q hq hqN hfree heq
  by_contra hlow
  rcases Nat.lt_trichotomy q page with hqp | rfl | hqp
  · have h1 := he.mono hqp.le
    have h2 := he.mono hlater.le
    exact absurd (h.first q hq hqN hfree (by omega)) (by omega)
  · exact hused hfree
  · exact hin q hqp (by omega) hq

/-- The walk over a free page, to the next sector. -/
theorem Scan.next_free (h : Scan e N view B page) (he : Sectors e) (ht : Tiled e N M view B)
    (hlt : page < N) (hfree : view page = .free) (hN : e page ≤ N) :
    Scan e N view B (e page) := by
  have hstop := ht.next page h.stop hlt
  rw [hfree] at hstop
  refine ⟨hstop, hN, ?_⟩
  intro q _ _ _ heq
  by_contra hlow
  have hsame : e q ≤ e page := by
    rcases Nat.lt_or_ge q page with hq | hq
    · exact he.mono hq.le
    · exact (he.eq page q hq (by omega)).le
  have hlater := he.lt (e page)
  omega

/-! ## Allocation -/

/-- Pages `[start, start + n)` are free, and no free page of the sector comes before them. -/
structure Room (e : Nat → Nat) (N M : Nat) (view : Nat → Cell) (B : Nat → Prop) (start n : Nat) :
    Prop where
  pos : 1 ≤ n
  bound : n < M
  le : start + n ≤ N
  free : ∀ q, start ≤ q → q < start + n → B q ∧ view q = .free
  first : ∀ q, B q → q < N → view q = .free → e q = e start → start ≤ q

variable {start n : Nat}

/-- The stops after the allocation. -/
def Stops.alloc (B : Nat → Prop) (start n : Nat) (q : Nat) : Prop :=
  B q ∧ ¬ (start < q ∧ q < start + n)

namespace Room

theorem stop_end (r : Room e N M view B start n) (he : Sectors e) (ht : Tiled e N M view B) :
    B (start + n) := by
  have hpos := r.pos
  have hle := r.le
  obtain ⟨hB, hfree⟩ := r.free (start + n - 1) (by omega) (by omega)
  have hlt := he.lt (start + n - 1)
  rcases Nat.lt_or_ge (start + n) (e (start + n - 1)) with h | h
  · exact (ht.free _ hB (by omega) hfree _ (by omega) h).1
  · have hnext := ht.next _ hB (by omega)
    rw [hfree] at hnext
    have heq : e (start + n - 1) = start + n := by omega
    rw [← heq]
    exact hnext

/-- No free page outside is in front of the extent in a sector it enters. -/
theorem not_before (r : Room e N M view B start n) (he : Sectors e) {q : Nat} (hq : B q)
    (hqN : q < N) (hfree : view q = .free) (hqs : q < start) : e q ≤ start := by
  by_contra hlt
  have hsame := he.eq q start hqs.le (by omega)
  exact absurd (r.first q hq hqN hfree hsame.symm) (by omega)

/-- What else is a stop keeps its neighbours. -/
theorem next_outside (r : Room e N M view B start n) (he : Sectors e) (ht : Tiled e N M view B)
    {b : Nat} (hb : B b) (hlt : b < N) (hout : ¬ (start ≤ b ∧ b < start + n)) :
    ¬ (start < (view b).next e b ∧ (view b).next e b < start + n) := by
  rintro ⟨h1, h2⟩
  have hpos := r.pos
  match hv : view b with
  | .free =>
    simp only [hv, Cell.next] at h1 h2
    have hlow := he.lt b
    have := r.not_before he hb hlt hv (by omega)
    omega
  | .single =>
    simp only [hv, Cell.next] at h1 h2
    omega
  | .extent m =>
    simp only [hv, Cell.next] at h1 h2
    have := ht.end_le hb hlt hv (r.free start le_rfl (by omega)).1 (by omega)
    omega

theorem alloc (r : Room e N M view B start n) (he : Sectors e) (ht : Tiled e N M view B)
    (hN : ∀ b, b < N → e b ≤ N) (hstart : view' start = .extent n)
    (hv : ∀ b, B b → b < N → ¬ (start ≤ b ∧ b < start + n) → view' b = view b) :
    Tiled e N M view' (Stops.alloc B start n) where
  start := ⟨ht.start, by omega⟩
  next := by
    rintro b ⟨hB, hout⟩ hlt
    by_cases hbs : b = start
    · subst hbs
      rw [hstart]
      exact ⟨r.stop_end he ht, by simp only [Cell.next]; omega⟩
    · rw [hv b hB hlt (by omega)]
      exact ⟨ht.next b hB hlt, r.next_outside he ht hB hlt (by omega)⟩
  free := by
    rintro b ⟨hB, hout⟩ hlt hfree q hbq hq
    have hbs : b ≠ start := by
      rintro rfl
      rw [hstart] at hfree
      cases hfree
    rw [hv b hB hlt (by omega)] at hfree
    obtain ⟨hBq, hvq⟩ := ht.free b hB hlt hfree q hbq hq
    have hqout : ¬ (start ≤ q ∧ q < start + n) := by
      rintro ⟨h1, h2⟩
      have := r.not_before he hB hlt hfree (by omega)
      omega
    have hqN := hN b hlt
    exact ⟨⟨hBq, by omega⟩, (hv q hBq (by omega) hqout).trans hvq⟩
  extent := by
    rintro b m ⟨hB, hout⟩ hlt hext
    by_cases hbs : b = start
    · subst hbs
      rw [hstart] at hext
      cases hext
      exact ⟨r.pos, r.bound, r.le, fun q h1 h2 hq => hq.2 ⟨h1, h2⟩⟩
    · rw [hv b hB hlt (by omega)] at hext
      obtain ⟨h1, h2, h3, hin⟩ := ht.extent b m hB hlt hext
      exact ⟨h1, h2, h3, fun q hbq hqb hq => hin q hbq hqb hq.1⟩

/-- An extent that reaches out of its sector leaves no room there. -/
theorem avoids (r : Room e N M view B start n) (he : Sectors e) (ht : Tiled e N M view B)
    {b m : Nat} (hb : B b) (hlt : b < N) (hext : view b = .extent m)
    (hout : e b < b + m) {q : Nat} (hsq : start ≤ q) (hqs : q < start + n) : e q ≠ e b := by
  intro heq
  have hqN : q < N := by
    have := r.le
    omega
  have hlast : q ≤ e b - 1 ∧ e b - 1 < e q := by
    have := he.lt q
    omega
  obtain ⟨hBq, hvq⟩ := r.free q hsq hqs
  obtain ⟨hBl, hvl⟩ := ht.free q hBq hqN hvq (e b - 1) hlast.1 hlast.2
  have hbe := he.lt b
  rcases Nat.lt_or_eq_of_le (show b ≤ e b - 1 by omega) with h | h
  · have := ht.end_le hb hlt hext hBl h
    omega
  · rw [← h, hext] at hvl
    cases hvl

end Room

/-! ## Erasing a sector -/

/-- The sector `[lo, hi)` is erased, and the pages `[hi, t)` that an extent of the sector had behind
    it are cut into single pages. -/
structure Erased (view view' : Nat → Cell) (B : Nat → Prop) (N lo hi t : Nat) : Prop where
  free : ∀ q, lo ≤ q → q < hi → view' q = .free
  single : ∀ q, hi ≤ q → q < t → view' q = .single
  other : ∀ q, B q → q < N → ¬ (lo ≤ q ∧ q < t) → view' q = view q

/-- The stops after that. -/
def Stops.erase (B : Nat → Prop) (lo t : Nat) (q : Nat) : Prop := B q ∨ (lo ≤ q ∧ q < t)

theorem Tiled.erase (h : Tiled e N M view B) (he : Sectors e) {lo hi t : Nat} (hlo : B lo)
    (hsec : e lo = hi) (hlow : ∀ q, q < lo → e q ≤ lo) (hN : ∀ b, b < N → e b ≤ N) (ht : B t) (hit : hi ≤ t)
    (hin : ∀ q, hi ≤ q → q < t → ¬ B q) (hv : Erased view view' B N lo hi t) :
    Tiled e N M view' (Stops.erase B lo t) where
  start := .inl h.start
  next := by
    intro b hb hlt
    have hlohi := he.lt lo
    by_cases hbin : lo ≤ b ∧ b < t
    · by_cases hbhi : b < hi
      · rw [hv.free b hbin.1 hbhi]
        have hsame := he.eq lo b hbin.1 (by omega)
        simp only [Cell.next, hsame, hsec]
        rcases Nat.lt_or_eq_of_le hit with hlt' | rfl
        · exact .inr ⟨by omega, hlt'⟩
        · exact .inl ht
      · rw [hv.single b (by omega) hbin.2]
        simp only [Cell.next]
        rcases Nat.lt_or_eq_of_le (show b + 1 ≤ t by omega) with hlt' | heq
        · exact .inr ⟨by omega, hlt'⟩
        · exact .inl (heq ▸ ht)
    · rcases hb with hb | hb
      · rw [hv.other b hb hlt hbin]
        exact .inl (h.next b hb hlt)
      · exact absurd hb hbin
  free := by
    intro b hb hlt hfree q hbq hq
    by_cases hbin : lo ≤ b ∧ b < t
    · have hbhi : b < hi := by
        by_contra hge
        rw [hv.single b (by omega) hbin.2] at hfree
        cases hfree
      have hsame := he.eq lo b hbin.1 (by omega)
      exact ⟨.inr ⟨by omega, by omega⟩, hv.free q (by omega) (by omega)⟩
    · rcases hb with hb | hb
      · rw [hv.other b hb hlt hbin] at hfree
        obtain ⟨hBq, hvq⟩ := h.free b hb hlt hfree q hbq hq
        have hqout : ¬ (lo ≤ q ∧ q < t) := by
          rintro ⟨h1, h2⟩
          have hblow : b < lo := by omega
          have := hlow b hblow
          omega
        have hqN := hN b hlt
        exact ⟨.inl hBq, (hv.other q hBq (by omega) hqout).trans hvq⟩
      · exact absurd hb hbin
  extent := by
    intro b n hb hlt hext
    by_cases hbin : lo ≤ b ∧ b < t
    · by_cases hbhi : b < hi
      · rw [hv.free b hbin.1 hbhi] at hext
        cases hext
      · rw [hv.single b (by omega) hbin.2] at hext
        cases hext
    · rcases hb with hb | hb
      · rw [hv.other b hb hlt hbin] at hext
        obtain ⟨h1, h2, h3, hout⟩ := h.extent b n hb hlt hext
        refine ⟨h1, h2, h3, ?_⟩
        rintro q hbq hqb (hq | hq)
        · exact hout q hbq hqb hq
        · have hblo : b < lo := by omega
          have := h.end_le hb hlt hext hlo hblo
          omega
      · exact absurd hb hbin

/-! ## Live extents -/

/-- The live extent of `n` pages at `b`. -/
structure LiveAt (N : Nat) (view : Nat → Cell) (B live : Nat → Prop) (b n : Nat) : Prop where
  stop : B b
  lt : b < N
  extent : view b = .extent n
  live : live b

/-- A dead extent that reaches out of its sector has no live neighbour there. -/
def Clear (e : Nat → Nat) (N : Nat) (view : Nat → Cell) (B live : Nat → Prop) : Prop :=
  ∀ b n, B b → b < N → view b = .extent n → ¬ live b → e b < b + n →
    ∀ c m, LiveAt N view B live c m → ∀ q, c ≤ q → q < c + m → e q ≠ e b

variable {live live' : Nat → Prop} {lo hi t : Nat}

theorem Room.liveAt_alloc (r : Room e N M view B start n) (hstart : view' start = .extent n)
    (hv : ∀ b, B b → b < N → ¬ (start ≤ b ∧ b < start + n) → view' b = view b)
    (hnew : live' start)
    (hl : ∀ b, B b → b < N → ¬ (start ≤ b ∧ b < start + n) → (live' b ↔ live b)) (b m : Nat) :
    LiveAt N view' (Stops.alloc B start n) live' b m ↔
      (b = start ∧ m = n) ∨ LiveAt N view B live b m := by
  have hpos := r.pos
  have hle := r.le
  constructor
  · rintro ⟨⟨hB, hout⟩, hlt, hext, hlive⟩
    by_cases hbs : b = start
    · subst hbs
      rw [hstart] at hext
      cases hext
      exact .inl ⟨rfl, rfl⟩
    · rw [hv b hB hlt (by omega)] at hext
      exact .inr ⟨hB, hlt, hext, (hl b hB hlt (by omega)).mp hlive⟩
  · rintro (⟨rfl, rfl⟩ | ⟨hB, hlt, hext, hlive⟩)
    · exact ⟨⟨(r.free b le_rfl (by omega)).1, by omega⟩, by omega, hstart, hnew⟩
    · have hout : ¬ (start ≤ b ∧ b < start + n) := by
        rintro ⟨h1, h2⟩
        rw [(r.free b h1 h2).2] at hext
        cases hext
      exact ⟨⟨hB, by omega⟩, hlt, (hv b hB hlt hout).trans hext, (hl b hB hlt hout).mpr hlive⟩

theorem Room.clear_alloc (r : Room e N M view B start n) (he : Sectors e)
    (ht : Tiled e N M view B) (hstart : view' start = .extent n)
    (hv : ∀ b, B b → b < N → ¬ (start ≤ b ∧ b < start + n) → view' b = view b)
    (hnew : live' start)
    (hl : ∀ b, B b → b < N → ¬ (start ≤ b ∧ b < start + n) → (live' b ↔ live b))
    (hc : Clear e N view B live) : Clear e N view' (Stops.alloc B start n) live' := by
  rintro b m ⟨hB, hout⟩ hlt hext hdead hreach c k hlive q hcq hqc
  have hbs : b ≠ start := fun h => hdead (h ▸ hnew)
  rw [hv b hB hlt (by omega)] at hext
  rw [hl b hB hlt (by omega)] at hdead
  rcases (r.liveAt_alloc hstart hv hnew hl c k).mp hlive with ⟨rfl, rfl⟩ | hlive
  · exact r.avoids he ht hB hlt hext hreach hcq hqc
  · exact hc b m hB hlt hext hdead hreach c k hlive q hcq hqc

/-- No extent starts in what was erased. -/
theorem Erased.outside (hv : Erased view view' B N lo hi t) {b n : Nat}
    (hext : view' b = .extent n) : ¬ (lo ≤ b ∧ b < t) := by
  rintro ⟨h1, h2⟩
  by_cases hbhi : b < hi
  · rw [hv.free b h1 hbhi] at hext
    cases hext
  · rw [hv.single b (by omega) h2] at hext
    cases hext

theorem Erased.liveAt (hv : Erased view view' B N lo hi t)
    (hl : ∀ b, B b → b < N → ¬ (lo ≤ b ∧ b < t) → (live' b ↔ live b))
    (hno : ∀ c m, LiveAt N view B live c m → ¬ (lo ≤ c ∧ c < t)) (b m : Nat) :
    LiveAt N view' (Stops.erase B lo t) live' b m ↔ LiveAt N view B live b m := by
  constructor
  · rintro ⟨hB, hlt, hext, hlive⟩
    have hout := hv.outside hext
    rcases hB with hB | hB
    · rw [hv.other b hB hlt hout] at hext
      exact ⟨hB, hlt, hext, (hl b hB hlt hout).mp hlive⟩
    · exact absurd hB hout
  · intro h
    have hout := hno b m h
    exact ⟨.inl h.stop, h.lt, (hv.other b h.stop h.lt hout).trans h.extent,
      (hl b h.stop h.lt hout).mpr h.live⟩

theorem Erased.clear (hv : Erased view view' B N lo hi t)
    (hl : ∀ b, B b → b < N → ¬ (lo ≤ b ∧ b < t) → (live' b ↔ live b))
    (hno : ∀ c m, LiveAt N view B live c m → ¬ (lo ≤ c ∧ c < t))
    (hc : Clear e N view B live) : Clear e N view' (Stops.erase B lo t) live' := by
  rintro b n hB hlt hext hdead hreach c m hlive
  rw [hv.liveAt hl hno] at hlive
  have hout := hv.outside hext
  rcases hB with hB | hB
  · rw [hv.other b hB hlt hout] at hext
    rw [hl b hB hlt hout] at hdead
    exact hc b n hB hlt hext hdead hreach c m hlive
  · exact absurd hB hout

end

end Adler.Lib
