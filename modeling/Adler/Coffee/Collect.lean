/-
  The garbage collector keeps the layout, and every byte of the extents in use.

  * `Counted`: what the loop of `get_sector_status` has found between a stop and the end of the
    sector.
  * `Surveyed`: what `get_sector_status` leaves behind for the next sector.
  * `collectGarbage_ends`: a sector is erased only when no extent in use enters it, and then none
    that stays enters it either.
-/
import Adler.Coffee.Layout

namespace Adler.Coffee

open Lib (Mem Prog Ends Cell Tiled Sectors LiveAt Clear)

variable {m : Mem} {B : Nat → Prop} {nf : Nat}

/-! ## The status of a sector -/

/-- The loop has counted the pages from `page` to the stop `t`, the first at or behind the sector's
    end `e`. -/
structure Counted (m : Mem) (B : Nat → Prop) (page e active obsolete : Nat)
    (stats : SectorStatus) (last : Bool) (t : Nat) : Prop where
  stop : B t
  le : e ≤ t ∧ t ≤ pageCount
  sum : stats.active + stats.obsolete + stats.free + page = active + obsolete + t
  more : active ≤ stats.active ∧ obsolete ≤ stats.obsolete
  quiet : stats.active = active → ∀ c n, InUse m B c n → page ≤ c → e ≤ c
  busy : active < stats.active → ∃ c n, InUse m B c n ∧ page ≤ c ∧ c < e
  reach : page < e → e < t → ∃ c n, page ≤ c ∧ c < e ∧ B c ∧ cell m c = .extent n ∧ c + n = t ∧
    (last = true ↔ Live m c)
  share : page < e → e < t → t < e + if last then stats.active else stats.obsolete
  last_active : page < e → last = true → active < stats.active

variable {page e active obsolete a o : Nat} {stats : SectorStatus} {last : Bool} {t : Nat}

/-- The pages of the stop `page` counted in front of the others. -/
theorem Counted.cons (h : Counted m B ((cell m page).next sectorEnd page) e (active + a)
      (obsolete + o) stats last t) (hl : Layout m nf B) (hB : B page) (hlt : page < e)
    (he : e ≤ pageCount) (hused : cell m page ≠ .free)
    (hsum : page + a + o = (cell m page).next sectorEnd page)
    (hactive : 0 < a ↔ ∃ n, InUse m B page n) (hkind : 0 < a → o = 0)
    (hend : e ≤ (cell m page).next sectorEnd page → t = (cell m page).next sectorEnd page ∧
      (last = true ↔ 0 < a)) :
    Counted m B page e active obsolete stats last t where
  stop := h.stop
  le := h.le
  sum := by
    have := h.sum
    omega
  more := by
    have := h.more
    omega
  quiet := by
    intro hsame c n hc hle
    have hmore := h.more
    rcases Nat.lt_or_eq_of_le hle with hlater | rfl
    · exact h.quiet (by omega) c n hc (hl.tiled.next_le hB (by omega) hused hc.stop hlater)
    · exact absurd (hactive.mpr ⟨n, hc⟩) (by omega)
  busy := by
    intro hbusy
    by_cases ha : 0 < a
    · obtain ⟨n, hn⟩ := hactive.mp ha
      exact ⟨page, n, hn, le_rfl, hlt⟩
    · obtain ⟨c, n, hc, hle, hce⟩ := h.busy (by omega)
      exact ⟨c, n, hc, by omega, hce⟩
  reach := by
    intro _ het
    have hmore := h.more
    rcases Nat.lt_or_ge ((cell m page).next sectorEnd page) e with hin | hout
    · obtain ⟨c, n, hle, hce, hc, hext, hcn, hlive⟩ := h.reach hin het
      exact ⟨c, n, by omega, hce, hc, hext, hcn, hlive⟩
    · obtain ⟨ht, hlast⟩ := hend hout
      cases hc : cell m page with
      | free => exact absurd hc hused
      | single =>
        simp only [hc, Cell.next] at ht
        omega
      | extent n =>
        simp only [hc, Cell.next] at ht
        refine ⟨page, n, le_rfl, hlt, hB, hc, ht.symm, ?_⟩
        rw [hlast, hactive]
        exact ⟨fun h => h.elim fun _ hn => hn.live, fun hlive => ⟨n, hB, by omega, hc, hlive⟩⟩
  share := by
    intro _ het
    have hmore := h.more
    rcases Nat.lt_or_ge ((cell m page).next sectorEnd page) e with hin | hout
    · exact h.share hin het
    · obtain ⟨ht, hlast⟩ := hend hout
      by_cases ha : 0 < a
      · rw [hlast.mpr ha, if_pos rfl]
        omega
      · rw [if_neg (fun h => ha (hlast.mp h))]
        omega
  last_active := by
    intro _ hlast
    have hmore := h.more
    rcases Nat.lt_or_ge ((cell m page).next sectorEnd page) e with hin | hout
    · have := h.last_active hin hlast
      omega
    · have := (hend hout).2.mp hlast
      omega

/-- Nothing is left to count. -/
theorem Counted.nil (hB : B page) (hle : e ≤ page) (hN : page ≤ pageCount) :
    Counted m B page e active obsolete ⟨active, obsolete, 0⟩ last page where
  stop := hB
  le := ⟨hle, hN⟩
  sum := rfl
  more := ⟨le_rfl, le_rfl⟩
  quiet := fun _ c _ _ h => hle.trans h
  busy := fun h => absurd h (Nat.lt_irrefl active)
  reach := fun h _ => absurd h (by omega)
  share := fun h _ => absurd h (by omega)
  last_active := fun h _ => absurd h (by omega)

/-- A blank page begins the free pages, which go on to the end of the sector. -/
theorem Counted.free (hl : Layout m nf B) (hB : B page) (hlt : page < e) (he : e ≤ pageCount)
    (hsec : sectorEnd page = e) (hblank : cell m page = .free) :
    Counted m B page e active obsolete ⟨active, obsolete, e - page⟩ false e where
  stop := by
    have hnext := hl.tiled.next page hB (hlt.trans_le he)
    rw [hblank] at hnext
    exact hsec ▸ hnext
  le := ⟨le_rfl, he⟩
  sum := by
    show active + obsolete + (e - page) + page = active + obsolete + e
    omega
  more := ⟨le_rfl, le_rfl⟩
  quiet := by
    intro _ c n hc hle
    by_contra hce
    have hfree := (hl.tiled.free page hB (hlt.trans_le he) hblank c hle (by rw [hsec]; omega)).2
    rw [hc.extent] at hfree
    cases hfree
  busy := fun h => absurd h (Nat.lt_irrefl active)
  reach := fun _ h => absurd h (Nat.lt_irrefl e)
  share := fun _ h => absurd h (Nat.lt_irrefl e)
  last_active := fun _ h => absurd h Bool.false_ne_true

/-- When the pages from the next file on are counted, those from this one on are. -/
theorem Counted.exists_cons {fuel : Nat} {l : Bool}
    (h : ∃ stats last t, countPages m e fuel ((cell m page).next sectorEnd page) (active + a)
        (obsolete + o) l = some (stats, last) ∧
      Counted m B ((cell m page).next sectorEnd page) e (active + a) (obsolete + o) stats last t ∧
      (e ≤ (cell m page).next sectorEnd page → t = (cell m page).next sectorEnd page ∧ last = l))
    (hl : Layout m nf B) (hB : B page) (hlt : page < e) (he : e ≤ pageCount)
    (hused : cell m page ≠ .free) (hsum : page + a + o = (cell m page).next sectorEnd page)
    (hactive : 0 < a ↔ ∃ n, InUse m B page n) (hkind : 0 < a → o = 0) (hlast : l = true ↔ 0 < a)
    (last₀ : Bool) :
    ∃ stats last t, countPages m e fuel ((cell m page).next sectorEnd page) (active + a)
        (obsolete + o) l = some (stats, last) ∧
      Counted m B page e active obsolete stats last t ∧ (e ≤ page → t = page ∧ last = last₀) := by
  obtain ⟨stats, last, t, heq, hcount, hdone⟩ := h
  refine ⟨stats, last, t, heq, hcount.cons hl hB hlt he hused hsum hactive hkind ?_, ?_⟩
  · intro hout
    obtain ⟨ht, rfl⟩ := hdone hout
    exact ⟨ht, hlast⟩
  · intro hle
    exact absurd hle (Nat.not_le_of_lt hlt)

theorem countPages_counted (hl : Layout m nf B) (he : e ≤ pageCount) (fuel page : Nat)
    (active obsolete : Nat) (last : Bool) (hB : B page) (hN : page ≤ pageCount)
    (hsec : page < e → sectorEnd page = e) (hpos : 0 < fuel) (hfuel : e < page + fuel) :
    ∃ stats last' t, countPages m e fuel page active obsolete last = some (stats, last') ∧
      Counted m B page e active obsolete stats last' t ∧ (e ≤ page → t = page ∧ last' = last) := by
  induction fuel generalizing page active obsolete last with
  | zero => exact absurd hpos (Nat.lt_irrefl 0)
  | succ fuel ih =>
    unfold countPages
    by_cases hlt : page < e
    · rw [if_pos hlt]
      have hpN : page < pageCount := by omega
      have hlater := hl.tiled.lt_next sectors_sectorEnd hB hpN
      have hnext := hl.tiled.next page hB hpN
      have hsec' : ∀ q, page ≤ q → q < e → sectorEnd q = e := by
        intro q h1 h2
        rw [← hsec hlt] at h2 ⊢
        exact sectors_sectorEnd.eq page q h1 h2
      dsimp only
      have hrec : ∀ a o l, ∃ stats last' t, countPages m e fuel ((cell m page).next sectorEnd page)
          (active + a) (obsolete + o) l = some (stats, last') ∧
          Counted m B ((cell m page).next sectorEnd page) e (active + a) (obsolete + o) stats last' t ∧
          (e ≤ (cell m page).next sectorEnd page →
            t = (cell m page).next sectorEnd page ∧ last' = l) := by
        intro a o l
        refine ih _ _ _ l hnext ?_ (hsec' _ hlater.le) (by omega) (by omega)
        exact hl.tiled.next_bound hB hpN sectorEnd_le
      cases hc : cell m page with
      | free =>
        have hflags := flags_of_blank (hl.blank page hB hpN hc)
        simp only [FileHeader.active, check_of_flags hflags, Bool.false_and, Bool.false_eq_true,
          if_false]
        exact ⟨_, _, e, rfl, .free hl hB hlt he (hsec hlt) hc, fun h => absurd h (Nat.not_le_of_lt hlt)⟩
      | single =>
        have hiso := (single_iff (by rw [hc]; simp)).mpr hc
        have hact : (readHeader m page).active = false := by
          simp only [FileHeader.active, hiso, Bool.not_true, Bool.and_false]
        rw [hact, hiso, if_neg Bool.false_ne_true, if_pos rfl]
        have hnone : ∀ n, ¬ InUse m B page n := by
          intro n hn
          have := hc.symm.trans hn.extent
          cases this
        have hcons := Counted.exists_cons (hrec 0 1 false) hl hB hlt he (by rw [hc]; simp)
          (by rw [hc]; rfl) (iff_of_false (Nat.lt_irrefl 0) (not_exists.mpr hnone))
          (fun h => absurd h (Nat.lt_irrefl 0)) (by simp) last
        rwa [hc] at hcons
      | extent n =>
        obtain ⟨hmax, hiso, hflags⟩ := extent_flags hc
        have hn := (hl.tiled.extent page n hB hpN hc).1
        cases hact : (readHeader m page).active with
        | true =>
          have hsome : 0 < n ↔ ∃ k, InUse m B page k :=
            ⟨fun _ => ⟨n, hB, hpN, hc, hact⟩, fun _ => hn⟩
          have hcons := Counted.exists_cons (hrec n 0 true) hl hB hlt he (by rw [hc]; simp)
            (by rw [hc]; rfl) hsome (fun _ => rfl) (iff_of_true rfl hn) last
          rw [if_pos rfl, hmax]
          rwa [hc] at hcons
        | false =>
          have hobs : (readHeader m page).check hdrFlagObsolete = true := by
            simpa [hact] using hflags
          have hnone : ∀ k, ¬ InUse m B page k := by
            intro k hk
            exact absurd hk.live (by simp [Live, hact])
          have hcons := Counted.exists_cons (hrec 0 n false) hl hB hlt he (by rw [hc]; simp)
            (by rw [hc]; rfl) (iff_of_false (Nat.lt_irrefl 0) (not_exists.mpr hnone))
            (fun h => absurd h (Nat.lt_irrefl 0)) (by simp) last
          rw [if_neg Bool.false_ne_true, hiso, if_neg Bool.false_ne_true, hobs, if_pos rfl, hmax]
          rwa [hc] at hcons
    · rw [if_neg hlt]
      exact ⟨_, _, page, rfl, .nil hB (by omega) hN, fun _ => ⟨rfl, rfl⟩⟩

/-! ## From sector to sector -/

/-- What `skip_pages` and `last_pages_are_active` say before sector `s`: how far an extent of an
    earlier sector enters it. A dead one has been cut into single pages. -/
structure Surveyed (m : Mem) (B : Nat → Prop) (s skip : Nat) (last : Bool) : Prop where
  lt : skip < 256
  stop : B (256 * s + skip)
  le : 256 * s + skip ≤ 3840
  tail : last = true → 0 < skip → ∃ c n, InUse m B c n ∧ c < 256 * s ∧
    c + n = 256 * s + skip
  cut : last = false → ∀ q, 256 * s ≤ q → q < 256 * s + skip →
    B q ∧ cell m q = .single

/-- What `get_sector_status` tells about sector `s`; `skip` and `last` are what it leaves. -/
structure Status (m : Mem) (B : Nat → Prop) (s : Nat) (stats : SectorStatus) (isolation skip : Nat)
    (last : Bool) : Prop where
  lt : skip < 256
  stop : B (256 * (s + 1) + skip)
  le : 256 * (s + 1) + skip ≤ 3840
  quiet : stats.active = 0 → ∀ c n, InUse m B c n →
    c + n ≤ 256 * s ∨ 256 * (s + 1) ≤ c
  busy : 0 < stats.active → ∃ c n q, InUse m B c n ∧ c ≤ q ∧ q < c + n ∧
    256 * s ≤ q ∧ q < 256 * (s + 1)
  reach : 0 < skip → ∃ c n, 256 * s ≤ c ∧ c < 256 * (s + 1) ∧ B c ∧
    cell m c = .extent n ∧ c + n = 256 * (s + 1) + skip ∧ (last = true ↔ Live m c)
  last_active : last = true → 0 < stats.active
  dead : 0 < skip → last = false → 0 < stats.obsolete
  isolation : last = false → isolation = skip

/-- An extent in use that starts earlier stays out of the sector, unless it is the one that
    `skip_pages` tells of. -/
theorem Surveyed.before {s k : Nat} {l : Bool} (hv : Surveyed m B s k l) (hl : Layout m nf B)
    (hk : l = true → k = 0) {c n : Nat} (huse : InUse m B c n) (hlow : c < 256 * s + k) :
    c + n ≤ 256 * s := by
  have hend := hl.tiled.end_le huse.stop huse.lt huse.extent hv.stop hlow
  rcases Nat.eq_zero_or_pos k with h0 | hpos
  · rw [h0, Nat.add_zero] at hend
    exact hend
  · have hcut := hv.cut (by
      cases l
      · rfl
      · exact absurd (hk rfl) (by omega))
    -- what was cut is no extent, so `c` lies before the sector
    have hbefore : c < 256 * s := by
      by_contra hin
      have hsingle := (hcut c (by omega) hlow).2
      rw [huse.extent] at hsingle
      cases hsingle
    exact hl.tiled.end_le huse.stop huse.lt huse.extent (hcut (256 * s) le_rfl (by omega)).1 hbefore

/-- The pages that `skip_pages` counts as active. -/
theorem Surveyed.entered {s k : Nat} {l : Bool} (hv : Surveyed m B s k l)
    (hpos : 0 < if l then k else 0) :
    ∃ c n, InUse m B c n ∧ c < 256 * s ∧ 256 * s < c + n := by
  cases l with
  | false => exact absurd hpos (Nat.lt_irrefl 0)
  | true =>
    rw [if_pos rfl] at hpos
    obtain ⟨c, n, huse, h1, h2⟩ := hv.tail rfl hpos
    exact ⟨c, n, huse, h1, by omega⟩

/-- In a sector without pages in use the first page is a stop. -/
theorem Surveyed.stop_start {s k isolation skip : Nat} {l : Bool} (hv : Surveyed m B s k l)
    (hst : Status m B s stats isolation skip last) (hactive : stats.active = 0) : B (256 * s) := by
  rcases Nat.eq_zero_or_pos k with rfl | hpos
  · exact hv.stop
  · match l with
    | false => exact (hv.cut rfl (256 * s) le_rfl (by omega)).1
    | true =>
      obtain ⟨c, n, huse, h1, h2⟩ := hv.tail rfl hpos
      rcases hst.quiet hactive c n huse with h | h
      · omega
      · omega

/-- Capping does not invent pages in use, nor lose them. -/
theorem SectorStatus.cap_active {skip : Nat}
    (hshare : 0 < skip → skip < if last then stats.active else stats.obsolete)
    (hsum : stats.active + stats.obsolete + stats.free = 256 + skip) :
    (stats.cap skip last).active = 0 ↔ stats.active = 0 := by
  unfold SectorStatus.cap
  split
  · rfl
  · have hlt := hshare (by omega)
    split
    · rename_i hlast
      rw [if_pos hlast] at hlt
      simp only [pagesPerSector]
      omega
    · rfl

theorem SectorStatus.cap_obsolete {skip : Nat} (hpos : 0 < skip)
    (hshare : 0 < skip → skip < if last then stats.active else stats.obsolete)
    (hsum : stats.active + stats.obsolete + stats.free = 256 + skip) (hlast : last = false) :
    0 < (stats.cap skip last).obsolete := by
  subst hlast
  have hlt := hshare hpos
  rw [if_neg Bool.false_ne_true] at hlt
  unfold SectorStatus.cap
  rw [if_neg (by omega), if_neg Bool.false_ne_true]
  simp only [pagesPerSector]
  omega

theorem status_of_counted (hl : Layout m nf B) {s k skip : Nat} {l : Bool}
    (hv : Surveyed m B s k l)
    (hc : Counted m B (256 * s + k) (256 * s + 256) (if l then k else 0) (if l then 0 else k) stats
      last t) (ht : t = 256 * s + 256 + skip)
    (hsum : stats.active + stats.obsolete + stats.free = 256 + skip) {isolation : Nat}
    (hiso : last = false → skip < 256 → isolation = skip) :
    Status m B s (stats.cap skip last) isolation skip last := by
  have hpage : 256 * s + k < 256 * s + 256 := Nat.add_lt_add_left hv.lt _
  have hreach := hc.reach hpage
  have hshare : 0 < skip → skip < if last then stats.active else stats.obsolete := by
    intro hpos
    have := hc.share hpage (by omega)
    omega
  have hlt : skip < 256 := by
    rcases Nat.eq_zero_or_pos skip with h0 | hpos
    · omega
    · obtain ⟨c, n, -, hce, hB, hext, hcn, -⟩ := hreach (by omega)
      have hbound := hl.tiled.extent c n hB (by
        have := hc.le.2
        omega) hext
      have : n < 256 := hbound.2.1
      omega
  have hactive := SectorStatus.cap_active hshare hsum
  have hsector : 256 * (s + 1) = 256 * s + 256 := Nat.mul_succ 256 s
  refine ⟨hlt, ?_, ?_, ?_, ?_, ?_, ?_, ?_, fun hfalse => hiso hfalse hlt⟩
  · rw [hsector, ← ht]
    exact hc.stop
  · rw [hsector, ← ht]
    exact hc.le.2
  · intro hzero c n huse
    rw [hactive] at hzero
    have hmore := hc.more.1
    rw [hzero, Nat.le_zero] at hmore
    rcases Nat.lt_or_ge c (256 * s + k) with hlow | hhigh
    · refine .inl (hv.before hl ?_ huse hlow)
      rintro rfl
      exact hmore
    · right
      rw [hsector]
      exact hc.quiet (hzero.trans hmore.symm) c n huse hhigh
  · intro hpos
    have hcount : 0 < stats.active := Nat.pos_of_ne_zero fun h0 => hpos.ne' (hactive.mpr h0)
    rw [hsector]
    rcases Nat.lt_or_ge (if l then k else 0) stats.active with hmany | hnone
    · obtain ⟨c, n, huse, h1, h2⟩ := hc.busy hmany
      have hn := (hl.tiled.extent c n huse.stop huse.lt huse.extent).1
      exact ⟨c, n, c, huse, le_rfl, Nat.lt_add_of_pos_right hn, (Nat.le_add_right _ k).trans h1, h2⟩
    · obtain ⟨c, n, huse, h1, h2⟩ := hv.entered (hcount.trans_le hnone)
      have hin : 256 * s < 256 * s + 256 := Nat.lt_add_of_pos_right (by decide)
      exact ⟨c, n, 256 * s, huse, h1.le, h2, le_rfl, hin⟩
  · intro hpos
    obtain ⟨c, n, h1, h2, h3, h4, h5, h6⟩ := hreach (by omega)
    rw [hsector]
    exact ⟨c, n, (Nat.le_add_right _ k).trans h1, h2, h3, h4, h5.trans ht, h6⟩
  · intro htrue
    have := hc.last_active hpage htrue
    exact Nat.pos_of_ne_zero fun h0 => absurd (hactive.mp h0) (by omega)
  · intro hpos hfalse
    exact SectorStatus.cap_obsolete hpos hshare hsum hfalse

theorem getSectorStatus_ends {fs : Fs} (hl : Layout fs.flash fs.nextFree B) {s : Nat}
    (hs : s < sectorCount)
    (hv : Surveyed fs.flash B s (fs.restart s).skipPages (fs.restart s).lastPagesAreActive) :
    Ends (getSectorStatus s) fs fun r fs' => ∃ skip last,
      fs' = { fs with skipPages := skip, lastPagesAreActive := last } ∧
        Status fs.flash B s r.1 r.2 skip last := by
  have hflash : (fs.restart s).flash = fs.flash := by
    unfold Fs.restart
    split <;> rfl
  have hlt := hv.lt
  have hend : 256 * s + 256 ≤ pageCount := by
    simp only [sectorCount, pageCount] at hs ⊢
    omega
  have hsec : 256 * s + (fs.restart s).skipPages < 256 * s + 256 →
      sectorEnd (256 * s + (fs.restart s).skipPages) = 256 * s + 256 := by
    intro _
    simp only [sectorEnd, pagesPerSector]
    omega
  obtain ⟨stats, last, t, heq, hc, -⟩ := countPages_counted hl hend (pagesPerSector + 1)
    (256 * s + (fs.restart s).skipPages)
    (if (fs.restart s).lastPagesAreActive then (fs.restart s).skipPages else 0)
    (if (fs.restart s).lastPagesAreActive then 0 else (fs.restart s).skipPages)
    (fs.restart s).lastPagesAreActive hv.stop hv.le hsec (by decide)
    (by simp only [pagesPerSector]; omega)
  have hsum := hc.sum
  have hle := hc.le.1
  have hinit : (if (fs.restart s).lastPagesAreActive then (fs.restart s).skipPages else 0) +
      (if (fs.restart s).lastPagesAreActive then 0 else (fs.restart s).skipPages) =
        (fs.restart s).skipPages := by
    split <;> simp
  unfold getSectorStatus
  refine Ends.update (Ends.load ?_)
  rw [if_neg (Nat.not_le.mpr hv.lt), hflash]
  refine Ends.lift heq (Ends.update (Ends.ret ?_))
  refine ⟨stats.active + stats.obsolete + stats.free - pagesPerSector, last, ?_, ?_⟩
  · unfold Fs.restart
    split <;> rfl
  · dsimp only
    refine status_of_counted hl hv hc ?_ ?_ ?_
    · simp only [pagesPerSector]
      omega
    · simp only [pagesPerSector]
      omega
    · intro hlast hsmall
      rw [if_neg]
      rintro (h | h)
      · rw [hlast] at h
        cases h
      · exact absurd hsmall (Nat.not_lt.mpr h)

/-! ## Erasing a sector -/

theorem cell_isolated (m : Mem) (page : Nat) :
    cell (writeHeader m isolatedHeader page) page = .single := by
  have hflags : (readHeader (writeHeader m isolatedHeader page) page).flags =
      (readHeader m page).flags ||| (isolatedHeader.flags ||| hdrFlagValid) := flags_writeHeader m rfl
  have halloc : (readHeader (writeHeader m isolatedHeader page) page).check hdrFlagAllocated = true := by
    simp only [FileHeader.check, hflags, decide_eq_true_eq]
    exact or_and_ne_zero (by decide)
  have hiso : (readHeader (writeHeader m isolatedHeader page) page).check hdrFlagIsolated = true := by
    simp only [FileHeader.check, hflags, decide_eq_true_eq]
    exact or_and_ne_zero (by decide)
  unfold cell
  dsimp only
  rw [FileHeader.free, halloc, if_neg (by simp), hiso, if_pos rfl]

theorem isolatePages_succ (start skip : Nat) (m : Mem) :
    isolatePages start (skip + 1) m =
      writeHeader (isolatePages start skip m) isolatedHeader (start + skip) := by
  unfold isolatePages
  rw [List.range_succ, List.foldl_append]
  rfl

theorem isolatePages_other {start skip i : Nat} (m : Mem)
    (hi : i < pageSize * start ∨ pageSize * (start + skip) ≤ i) :
    isolatePages start skip m i = m i := by
  induction skip with
  | zero => rfl
  | succ skip ih =>
    rw [isolatePages_succ, writeHeader_other rfl, ih]
    · simp only [pageSize] at hi ⊢
      omega
    · simp only [pageSize, headerSize] at hi ⊢
      omega

theorem cell_isolatePages {start skip q : Nat} (m : Mem) (h1 : start ≤ q) (h2 : q < start + skip) :
    cell (isolatePages start skip m) q = .single := by
  induction skip with
  | zero => omega
  | succ skip ih =>
    rw [isolatePages_succ]
    by_cases hq : q = start + skip
    · rw [hq]
      exact cell_isolated _ _
    · rw [cell_congr (readHeader_writeHeader_other rfl hq)]
      exact ih (by omega)

/-- Sector `s` is erased, and the `skip` pages behind it are cut. -/
def collected (m : Mem) (s skip : Nat) : Mem := erase (isolatePages (256 * (s + 1)) skip m) s

theorem collected_of_mem {s skip i : Nat} (m : Mem) (h1 : 65536 * s ≤ i) (h2 : i < 65536 * (s + 1)) :
    collected m s skip i = 0 := by
  simp only [collected, erase, sectorSize, h1, h2, and_self, if_true]

theorem collected_other {s skip i : Nat} (m : Mem)
    (hi : i < 65536 * s ∨ 256 * (256 * (s + 1) + skip) ≤ i) : collected m s skip i = m i := by
  unfold collected erase
  rw [if_neg (by simp only [sectorSize]; omega), isolatePages_other]
  simp only [pageSize]
  omega

theorem readHeader_collected {s skip q : Nat} (m : Mem)
    (hq : q < 256 * s ∨ 256 * (s + 1) + skip ≤ q) :
    readHeader (collected m s skip) q = readHeader m q := by
  refine readHeader_congr fun i hi => collected_other m ?_
  simp only [headerSize, pageSize] at hi ⊢
  omega

theorem blank_collected {s skip q : Nat} (m : Mem) (h1 : 256 * s ≤ q) (h2 : q < 256 * (s + 1)) :
    Blank (collected m s skip) q := by
  intro i hi
  refine collected_of_mem m ?_ ?_
  · simp only [pageSize] at hi ⊢
    omega
  · simp only [pageSize] at hi ⊢
    omega

theorem erased_collected (m : Mem) (B : Nat → Prop) (s skip : Nat) :
    Lib.Erased (cell m) (cell (collected m s skip)) B pageCount (256 * s) (256 * (s + 1))
      (256 * (s + 1) + skip) where
  free := fun q h1 h2 => cell_of_blank (blank_collected m h1 h2)
  single := by
    intro q h1 h2
    rw [← cell_isolatePages m h1 h2]
    refine cell_congr (readHeader_congr fun i hi => ?_)
    simp only [collected, erase, sectorSize, pageSize, headerSize] at hi ⊢
    rw [if_neg (by omega)]
  other := fun q _ _ hq => cell_congr (readHeader_collected m (by omega))

/-- What one round of `collect_garbage` that erases a sector keeps. -/
theorem Layout.collect (hl : Layout m nf B) {s isolation skip : Nat} (hs : s < sectorCount)
    (hB : B (256 * s)) (hst : Status m B s stats isolation skip last) (hactive : stats.active = 0) :
    ∃ B', Layout (collected m s skip) (if 256 * s < nf then 256 * s else nf) B' ∧
      (∀ b n, InUse (collected m s skip) B' b n ↔ InUse m B b n) ∧
      Preserved m (collected m s skip) B ∧
      Surveyed (collected m s skip) B' (s + 1) skip last := by
  have hv := erased_collected m B s skip
  have hquiet := hst.quiet hactive
  have hlast : last = false := by
    cases h : last
    · rfl
    · have := hst.last_active h
      omega
  have hin : ∀ q, 256 * (s + 1) ≤ q → q < 256 * (s + 1) + skip → ¬ B q := by
    intro q h1 h2
    obtain ⟨c, n, hc1, hc2, hc, hext, hcn, -⟩ := hst.reach (by omega)
    have hcN : c < pageCount := by
      simp only [sectorCount, pageCount] at hs ⊢
      omega
    exact (hl.tiled.extent c n hc hcN hext).2.2.2 q (by omega) (by omega)
  have hout : ∀ b n, InUse m B b n → b + n ≤ 256 * s ∨ 256 * (s + 1) + skip ≤ b := by
    intro b n huse
    rcases hquiet b n huse with h | h
    · exact .inl h
    · right
      by_contra hlow
      exact hin b h (by omega) huse.stop
  have hlive : ∀ b, B b → b < pageCount → ¬ (256 * s ≤ b ∧ b < 256 * (s + 1) + skip) →
      (Live (collected m s skip) b ↔ Live m b) :=
    fun b _ _ hb => live_congr (readHeader_collected m (by omega))
  have hno : ∀ c n, InUse m B c n → ¬ (256 * s ≤ c ∧ c < 256 * (s + 1) + skip) := by
    intro c n huse
    have := hout c n huse
    have := (hl.tiled.extent c n huse.stop huse.lt huse.extent).1
    omega
  have hcell : ∀ q, cell (collected m s skip) q = .free →
      ¬ (256 * (s + 1) ≤ q ∧ q < 256 * (s + 1) + skip) := by
    rintro q hfree ⟨h1, h2⟩
    rw [hv.single q h1 h2] at hfree
    cases hfree
  -- a free page outside the sector was free before
  have hkept : ∀ q, Lib.Stops.erase B (256 * s) (256 * (s + 1) + skip) q → q < pageCount →
      cell (collected m s skip) q = .free → ¬ (256 * s ≤ q ∧ q < 256 * (s + 1)) →
      B q ∧ cell m q = .free := by
    intro q hq hqN hfree hsector
    have hqout := hcell q hfree
    have hq' : B q := hq.resolve_right (by omega)
    exact ⟨hq', (hv.other q hq' hqN (by omega)).symm.trans hfree⟩
  have hsec : sectorEnd (256 * s) = 256 * (s + 1) := by
    simp only [sectorEnd, pagesPerSector]
    omega
  have hlow : ∀ q, q < 256 * s → sectorEnd q ≤ 256 * s := by
    intro q hq
    simp only [sectorEnd, pagesPerSector]
    omega
  refine ⟨Lib.Stops.erase B (256 * s) (256 * (s + 1) + skip),
    ⟨⟨?_, ?_, ?_, ?_, ?_⟩, hv.clear hlive hno hl.clear⟩, hv.liveAt hlive hno, ?_, ?_⟩
  · exact hl.tiled.erase sectors_sectorEnd hB hsec hlow sectorEnd_le hst.stop (by omega) hin hv
  · intro q hq hqN hfree
    by_cases hsector : 256 * s ≤ q ∧ q < 256 * (s + 1)
    · exact blank_collected m hsector.1 hsector.2
    · obtain ⟨hq', hold⟩ := hkept q hq hqN hfree hsector
      have hqout := hcell q hfree
      intro i hi
      rw [collected_other m (by simp only [pageSize] at hi ⊢; omega)]
      exact hl.blank q hq' hqN hold i hi
  · split
    · exact .inl hB
    · exact .inl hl.stop
  · have := hl.le
    split <;> omega
  · intro q hq hqN hfree
    by_cases hsector : 256 * s ≤ q ∧ q < 256 * (s + 1)
    · split <;> omega
    · obtain ⟨hq', hold⟩ := hkept q hq hqN hfree hsector
      have := hl.first q hq' hqN hold
      split <;> omega
  · intro b n huse i h1 h2
    have := hout b n huse
    exact collected_other m (by omega)
  · refine ⟨hst.lt, .inl hst.stop, hst.le, ?_, ?_⟩
    · intro h
      rw [hlast] at h
      cases h
    · intro _ q h1 h2
      exact ⟨.inr ⟨by omega, h2⟩, hv.single q h1 h2⟩

/-- A sector that stays is left by extents in use only. -/
theorem Status.surveyed {s isolation skip : Nat} (hst : Status m B s stats isolation skip last)
    (hl : Layout m nf B) (hs : s < sectorCount) (hstay : 0 < stats.active ∨ stats.obsolete = 0) :
    Surveyed m B (s + 1) skip last where
  lt := hst.lt
  stop := hst.stop
  le := hst.le
  tail := by
    intro hlast hpos
    obtain ⟨c, n, -, h2, hc, hext, hcn, hlive⟩ := hst.reach hpos
    have hcN : c < pageCount := by
      simp only [sectorCount, pageCount] at hs ⊢
      omega
    exact ⟨c, n, ⟨hc, hcN, hext, hlive.mp hlast⟩, h2, hcn⟩
  cut := by
    intro hlast q h1 h2
    have hpos : 0 < skip := by omega
    obtain ⟨c, n, hc1, hc2, hc, hext, hcn, hlive⟩ := hst.reach hpos
    have hcN : c < pageCount := by
      simp only [sectorCount, pageCount] at hs ⊢
      omega
    have hdead : ¬ Live m c := by
      intro h
      rw [hlive.mpr h] at hlast
      cases hlast
    have hdead_pages := hst.dead hpos hlast
    obtain ⟨c', n', q', huse, h3, h4, h5, h6⟩ := hst.busy (hstay.resolve_right (by omega))
    -- a dead extent that leaves the sector has no neighbour in use there
    have hclear := hl.clear c n hc hcN hext hdead (by
      simp only [sectorEnd, pagesPerSector]
      omega) c' n' huse q' h3 h4
    refine absurd ?_ hclear
    simp only [sectorEnd, pagesPerSector]
    omega

/-- What the garbage collector keeps. -/
structure Kept (fs fs' : Fs) (B B' : Nat → Prop) : Prop where
  files : fs'.files = fs.files
  fds : fs'.fds = fs.fds
  inUse : ∀ b n, InUse fs'.flash B' b n ↔ InUse fs.flash B b n
  bytes : Preserved fs.flash fs'.flash B

variable {fs fs' fs'' : Fs} {B' B'' : Nat → Prop}

theorem Kept.refl (fs : Fs) (B : Nat → Prop) : Kept fs fs B B :=
  ⟨rfl, rfl, fun _ _ => Iff.rfl, fun _ _ _ _ _ _ => rfl⟩

theorem Kept.trans (h : Kept fs fs' B B') (h' : Kept fs' fs'' B' B'') : Kept fs fs'' B B'' where
  files := h'.files.trans h.files
  fds := h'.fds.trans h.fds
  inUse := fun b n => (h'.inUse b n).trans (h.inUse b n)
  bytes := fun b n huse i h1 h2 =>
    (h'.bytes b n ((h.inUse b n).mpr huse) i h1 h2).trans (h.bytes b n huse i h1 h2)

theorem collectSectors_ends (n s : Nat) (fs : Fs) (B : Nat → Prop) (hsn : s + n = sectorCount)
    (hl : Layout fs.flash fs.nextFree B)
    (hv : Surveyed fs.flash B s (fs.restart s).skipPages (fs.restart s).lastPagesAreActive) :
    Ends (collectSectors .greedy (List.range' s n)) fs fun _ fs' =>
      ∃ B', Layout fs'.flash fs'.nextFree B' ∧ Kept fs fs' B B' := by
  induction n generalizing s fs B with
  | zero => exact Ends.ret ⟨B, hl, .refl fs B⟩
  | succ n ih =>
    have hs : s < sectorCount := by omega
    rw [List.range'_succ]
    refine Ends.seq (getSectorStatus_ends hl hs hv) ?_
    rintro ⟨stats, isolation⟩ _ ⟨skip, last, rfl, hst⟩
    have hkept : Kept fs { fs with skipPages := skip, lastPagesAreActive := last } B B :=
      ⟨rfl, rfl, fun _ _ => Iff.rfl, fun _ _ _ _ _ _ => rfl⟩
    have hrest : 0 < stats.active ∨ stats.obsolete = 0 →
        Ends (collectSectors .greedy (List.range' (s + 1) n))
          { fs with skipPages := skip, lastPagesAreActive := last } fun _ fs' =>
            ∃ B', Layout fs'.flash fs'.nextFree B' ∧ Kept fs fs' B B' := by
      intro hstay
      refine (ih (s + 1) { fs with skipPages := skip, lastPagesAreActive := last } B
        (by omega) hl ?_).mono ?_
      · exact hst.surveyed hl hs hstay
      · rintro _ fs' ⟨B', hl', hk'⟩
        exact ⟨B', hl', hkept.trans hk'⟩
    dsimp only
    split
    · rename_i hactive
      exact hrest (.inl hactive)
    · rename_i hactive
      split
      · have hzero : stats.active = 0 := Nat.eq_zero_of_not_pos hactive
        obtain ⟨B', hl', huse, hbytes, hv'⟩ := hl.collect hs (hv.stop_start hst hzero) hst hzero
        have hiso : isolation = skip := hst.isolation (by
          cases last
          · rfl
          · exact absurd (hst.last_active rfl) hactive)
        refine Ends.update ?_
        rw [if_neg (fun h => nomatch h.1), hiso]
        refine (ih (s + 1) { fs with
          flash := collected fs.flash s skip
          nextFree := if 256 * s < fs.nextFree then 256 * s else fs.nextFree
          skipPages := skip
          lastPagesAreActive := last } B' (by omega) hl' hv').mono ?_
        rintro _ fs' ⟨B'', hl'', hk''⟩
        have hk' : Kept fs { fs with
          flash := collected fs.flash s skip
          nextFree := if 256 * s < fs.nextFree then 256 * s else fs.nextFree
          skipPages := skip
          lastPagesAreActive := last } B B' := ⟨rfl, rfl, huse, hbytes⟩
        exact ⟨B'', hl'', hk'.trans hk''⟩
      · rename_i hmode
        refine hrest (.inr ?_)
        by_contra hobs
        exact hmode (.inr ⟨rfl, Nat.pos_of_ne_zero hobs⟩)

/-- `collect_garbage` returns, and keeps what is in use. -/
theorem collectGarbage_ends (hl : Layout fs.flash fs.nextFree B) :
    Ends (collectGarbage .greedy) fs fun _ fs' =>
      ∃ B', Layout fs'.flash fs'.nextFree B' ∧ Kept fs fs' B B' := by
  unfold collectGarbage
  rw [List.range_eq_range']
  refine collectSectors_ends sectorCount 0 fs B (Nat.zero_add _) hl ?_
  have hstart : fs.restart 0 = { fs with skipPages := 0, lastPagesAreActive := false } := rfl
  rw [hstart]
  refine ⟨Nat.zero_lt_succ _, hl.tiled.start, Nat.zero_le _, (fun h => nomatch h), ?_⟩
  intro _ q h1 h2
  exact absurd h2 (Nat.not_lt.mpr h1)

end Adler.Coffee
