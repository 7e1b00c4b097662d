/-
  `merge_log`: the file moves to a new extent with what its readers see, and the old extent and the
  log are given up together.

  * `copyLoop_ends`: the new extent holds the visible bytes.
  * `repoint_spec`: open descriptors follow.
  * `mergeLog_ends`: the merge keeps the file, or fails and leaves it where it is.
-/
import Adler.Coffee.Holds

namespace Adler.Coffee

open Lib (Mem Prog Ends Cell LiveAt)

variable {name : FileName} {fs fs' fs'' : Fs} {B : Nat → Prop} {s : Shape} {content : Mem}

/-! ## The copy -/

/-- `o` bytes of `content` are in the extent at `start`; descriptor `d` reads on from there. -/
structure Copied (fs : Fs) (content : Mem) (d start o : Nat) (fs' : Fs) : Prop where
  files : fs'.files = fs.files
  nextFree : fs'.nextFree = fs.nextFree
  fds : fs'.fds = Function.update fs.fds d { fs.fds d with offset := o }
  other : ∀ i, i < absoluteOffset start 0 ∨ absoluteOffset start o ≤ i → fs'.flash i = fs.flash i
  data : ∀ off, off < o → fs'.flash (absoluteOffset start off) = content off

/-- Before the copy. -/
theorem Copied.zero {d : Nat} (h : (fs.fds d).offset = 0) (start : Nat) :
    Copied fs content d start 0 fs where
  files := rfl
  nextFree := rfl
  fds := by
    have hfd : { fs.fds d with offset := 0 } = fs.fds d := by rw [← h]
    rw [hfd, Function.update_eq_self]
  other := fun _ _ => rfl
  data := fun off hlt => absurd hlt (Nat.not_lt_zero off)

theorem Copied.next {d start o k : Nat} (h : Copied fs content d start o fs')
    (hblank : ∀ off, o ≤ off → off < o + k → fs.flash (absoluteOffset start off) = 0) :
    Copied fs content d start (o + k)
      ((fs'.setFd d { fs'.fds d with offset := o + k }).setFlash
        (pwrite fs'.flash (absoluteOffset start o) (Mem.read content o k))) where
  files := h.files
  nextFree := h.nextFree
  fds := by
    simp only [Fs.setFlash, Fs.setFd, h.fds, Function.update_idem, Function.update_self]
  other := by
    intro i hi
    simp only [absoluteOffset] at hi
    refine (pwrite_of_not_mem _ ?_).trans (h.other i ?_)
    · rw [Mem.length_read]
      simp only [absoluteOffset]
      omega
    · simp only [absoluteOffset]
      omega
  data := by
    intro off hoff
    rcases Nat.lt_or_ge off o with hlow | hhigh
    · refine (pwrite_of_not_mem _ (.inl ?_)).trans (h.data off hlow)
      simp only [absoluteOffset]
      omega
    · have hold : fs'.flash (absoluteOffset start off) = 0 := by
        rw [h.other _ (.inr (by simp only [absoluteOffset]; omega))]
        exact hblank off hhigh hoff
      have hidx : absoluteOffset start off - absoluteOffset start o = off - o := by
        simp only [absoluteOffset]
        omega
      have hback : o + (off - o) = off := by omega
      refine (pwrite_of_mem _ ?_ ?_).trans ?_
      · simp only [absoluteOffset]
        omega
      · rw [Mem.length_read]
        simp only [absoluteOffset]
        omega
      · rw [hold, UInt8.zero_or, hidx, Mem.getD_read _ _ _ _ (by omega), hback]

/-- The loop ends at the end `e` of the file. -/
theorem copyLoop_ends {d start e size : Nat} (hsize : 0 < size)
    (hread : ∀ o fs', o ≤ e → Copied fs content d start o fs' →
      Ends (cfsRead d size) fs' fun r fs'' => r = some (Mem.read content o (min size (e - o))) ∧
        fs'' = fs'.setFd d { fs'.fds d with offset := o + min size (e - o) })
    (hblank : ∀ off, off < e → fs.flash (absoluteOffset start off) = 0)
    (fuel o : Nat) (fs' : Fs) (hoe : o ≤ e) (hfuel : e < o + fuel)
    (hc : Copied fs content d start o fs') :
    Ends (copyLoop d size start fuel o) fs' fun r fs'' =>
      r = some e ∧ Copied fs content d start e fs'' := by
  induction fuel generalizing o fs' with
  | zero => omega
  | succ fuel ih =>
    unfold copyLoop
    refine Ends.seq (hread o fs' hoe hc) ?_
    rintro _ fs1 ⟨rfl, hfs1⟩
    dsimp only
    rw [Mem.length_read]
    by_cases hend : min size (e - o) = 0
    · obtain rfl : o = e := by omega
      rw [if_pos hend]
      refine Ends.ret ⟨rfl, ?_⟩
      have hfd : { fs'.fds d with offset := o } = fs'.fds d := by
        rw [hc.fds, Function.update_self]
      have hstay : fs'.setFd d (fs'.fds d) = fs' := by
        simp only [Fs.setFd, Function.update_eq_self]
      rw [hfs1, hend, Nat.add_zero, hfd, hstay]
      exact hc
    · rw [if_neg hend, hfs1]
      refine Ends.update (ih _ _ (by omega) (by omega) (hc.next ?_))
      intro off h1 h2
      exact hblank off (by omega)

/-! ## Descriptors -/

/-- Open descriptors stay open, where they are. -/
def SameFds (fs fs' : Fs) : Prop := ∀ d, d < fdSetSize → (fs'.fds d).flags = (fs.fds d).flags ∧
  ((fs.fds d).flags ≠ 0 →
    (fs'.fds d).offset = (fs.fds d).offset ∧ (fs'.fds d).ioFlags = (fs.fds d).ioFlags)

theorem SameFds.refl (fs : Fs) : SameFds fs fs := fun _ _ => ⟨rfl, fun _ => ⟨rfl, rfl⟩⟩

theorem SameFds.trans (h : SameFds fs fs') (h' : SameFds fs' fs'') : SameFds fs fs'' := by
  intro d hd
  obtain ⟨h1, h2⟩ := h d hd
  obtain ⟨h3, h4⟩ := h' d hd
  refine ⟨h3.trans h1, fun hused => ?_⟩
  obtain ⟨h5, h6⟩ := h2 hused
  obtain ⟨h7, h8⟩ := h4 (h1 ▸ hused)
  exact ⟨h7.trans h5, h8.trans h6⟩

theorem Fs.openOn_congr (page : Nat) {d : Nat} (hs : SameStore fs fs') (hfd : fs'.fds d = fs.fds d) :
    fs'.openOn page d = fs.openOn page d := by
  have hpage : (fun i => decide ((fs'.files i).page = page)) =
      fun i => decide ((fs.files i).page = page) := by
    funext i
    obtain ⟨r, hr⟩ := hs.files i
    rw [hr]
  unfold Fs.openOn
  rw [hfd, hpage]

/-- A descriptor that was opened in between is closed again. -/
theorem SameFds.closed {d : Nat} (hfree : (fs.fds d).flags = 0)
    (hclosed : d < fdSetSize → (fs'.fds d).flags = 0)
    (hother : ∀ d', d' < fdSetSize → d' ≠ d → (fs'.fds d').flags = (fs.fds d').flags ∧
      ((fs.fds d').flags ≠ 0 → (fs'.fds d').offset = (fs.fds d').offset ∧
        (fs'.fds d').ioFlags = (fs.fds d').ioFlags)) : SameFds fs fs' := by
  intro d' hd
  by_cases hdd : d' = d
  · subst hdd
    exact ⟨(hclosed hd).trans hfree.symm, fun hused => absurd hfree hused⟩
  · exact hother d' hd hdd

/-- The loop over the first `n` descriptors. -/
theorem repoint_range (page j n : Nat) (fs : Fs) :
    let fs' := (List.range n).foldl (fun fs fd =>
      if fs.openOn page fd then
        (fs.setFd fd { fs.fds fd with file := some j }).setFile j
          { fs.files j with references := (fs.files j).references + 1 }
      else fs) fs
    SameStore fs fs' ∧ ∀ d, fs'.fds d =
      if d < n ∧ fs.openOn page d then { fs.fds d with file := some j } else fs.fds d := by
  induction n with
  | zero =>
    refine ⟨⟨rfl, rfl, fun i => ⟨_, rfl⟩⟩, fun d => ?_⟩
    rw [if_neg (fun h => Nat.not_lt_zero d h.1)]
    rfl
  | succ n ih =>
    rw [List.range_succ, List.foldl_append]
    generalize (List.range n).foldl _ fs = fs1 at ih ⊢
    obtain ⟨hs, hfds⟩ := ih
    have hn : fs1.fds n = fs.fds n := by
      rw [hfds n, if_neg (fun h => Nat.lt_irrefl n h.1)]
    have hopen := Fs.openOn_congr page hs hn
    simp only [List.foldl_cons, List.foldl_nil, hopen]
    by_cases hfd : fs.openOn page n = true
    · rw [if_pos hfd]
      refine ⟨hs.trans (sameStore_openFd fs1 n j _ _), fun d => ?_⟩
      by_cases hdn : d = n
      · subst hdn
        rw [if_pos ⟨Nat.lt_succ_self d, hfd⟩, ← hn]
        exact Function.update_self ..
      · have hlt : d < n + 1 ↔ d < n := by omega
        simp only [hlt]
        exact (Function.update_of_ne hdn ..).trans (hfds d)
    · rw [if_neg hfd]
      refine ⟨hs, fun d => ?_⟩
      by_cases hdn : d = n
      · subst hdn
        rw [if_neg (fun h => hfd h.2), hn]
      · have hlt : d < n + 1 ↔ d < n := by omega
        simp only [hlt]
        exact hfds d

/-- The descriptors of the file at `page` get slot `j`. -/
theorem repoint_spec (page j : Nat) (fs : Fs) : SameStore fs (repoint page j fs) ∧
    ∀ d, d < fdSetSize → (repoint page j fs).fds d =
      if fs.openOn page d then { fs.fds d with file := some j } else fs.fds d := by
  unfold repoint
  obtain ⟨hs, hfds⟩ := repoint_range page j fdSetSize fs
  refine ⟨hs, fun d hd => ?_⟩
  rw [hfds d]
  simp only [hd, true_and]

/-! ## The old extents -/

/-- What `remove_by_page` leaves. -/
def Fs.drop (page : Nat) (fs : Fs) : Fs :=
  { fs with
    flash := retired fs.flash page
    gcWait := false
    files := fun i => if i < maxOpenFiles ∧ (fs.files i).page = page
      then { fs.files i with page := invalidPage, references := 0, maxPages := 0 } else fs.files i }

theorem markObsolete_ends (page : Nat) (fs : Fs) : Ends
    (markObsolete (readHeader fs.flash page) page false) fs fun _ fs' => fs' = fs.drop page :=
  ⟨⟨⟩, _, rfl, rfl⟩

theorem removeExtent_ends {page : Nat} (h : (readHeader fs.flash page).active = true) :
    Ends (removeExtent page false) fs fun r fs' => r = 0 ∧ fs' = fs.drop page := by
  unfold removeExtent
  refine Ends.load ?_
  dsimp only
  rw [h, Bool.not_true, if_neg Bool.false_ne_true]
  refine Ends.seq (markObsolete_ends page fs) ?_
  rintro _ _ rfl
  exact Ends.ret ⟨rfl, rfl⟩

/-- The state without the file and its log. -/
def Fs.dropFile (page : Nat) (log : Option LogShape) (fs : Fs) : Fs :=
  match log with
  | none => fs.drop page
  | some g => (fs.drop g.page).drop page

theorem removeByPage_ends {page : Nat} (log : Option LogShape)
    (h : (readHeader fs.flash page).active = true)
    (hmod : (readHeader fs.flash page).check hdrFlagModified = log.isSome)
    (hlog : ∀ g, log = some g → (readHeader fs.flash page).logPage = g.page ∧ page ≠ g.page ∧
      (readHeader fs.flash g.page).active = true) :
    Ends (removeByPage page false) fs fun r fs' => r = 0 ∧ fs' = fs.dropFile page log := by
  unfold removeByPage
  refine Ends.load ?_
  dsimp only
  rw [h, Bool.not_true, if_neg Bool.false_ne_true, hmod]
  match log with
  | none =>
    rw [Option.isSome_none, if_neg Bool.false_ne_true]
    refine Ends.seq (markObsolete_ends page fs) ?_
    rintro _ _ rfl
    exact Ends.ret ⟨rfl, rfl⟩
  | some g =>
    obtain ⟨hpage, hne, hactive⟩ := hlog g rfl
    rw [Option.isSome_some, if_pos rfl, hpage]
    refine Ends.seq (removeExtent_ends hactive) ?_
    rintro _ _ ⟨rfl, rfl⟩
    have hhdr : readHeader (fs.drop g.page).flash page = readHeader fs.flash page :=
      (within_retired fs.flash g.page).readHeader (by omega)
    rw [if_neg (by decide), ← hhdr]
    refine Ends.seq (markObsolete_ends page (fs.drop g.page)) ?_
    rintro _ _ rfl
    exact Ends.ret ⟨rfl, rfl⟩

/-- Giving up the old extent and the log when the file is in a new one, at `start`. -/
theorem Layout.dropFile (hl : Layout fs.flash fs.nextFree B) {page n start pages : Nat}
    {log : Option LogShape} (hnew : InUse fs.flash B start pages) (hold : InUse fs.flash B page n)
    (hlog : ∀ g, log = some g → InUse fs.flash B g.page 5 ∧ page ≠ g.page ∧ start ≠ g.page)
    (hne : start ≠ page)
    (honly : ∀ b k, InUse fs.flash B b k → b ≠ start → b = page ∨ ∃ g, log = some g ∧ b = g.page)
    (hapart : ∀ b k, InUse fs.flash B b k → b ≠ start → sectorEnd b < b + k →
      ∀ q, start ≤ q → q < start + pages → sectorEnd q ≠ sectorEnd b) :
    Layout (fs.dropFile page log).flash fs.nextFree B ∧
      (∀ c k, InUse (fs.dropFile page log).flash B c k ↔ c = start ∧ k = pages) ∧
      ∀ i, 256 * start ≤ i → i < 256 * (start + pages) →
        (fs.dropFile page log).flash i = fs.flash i := by
  have hdrop : Ground (fs.dropFile page log).flash fs.nextFree B ∧
      (∀ q, B q → cell (fs.dropFile page log).flash q = cell fs.flash q) ∧
      (∀ c k, InUse (fs.dropFile page log).flash B c k ↔ InUse fs.flash B c k ∧ c = start) ∧
      ∀ i, 256 * start ≤ i → i < 256 * (start + pages) →
        (fs.dropFile page log).flash i = fs.flash i := by
    match log with
    | none =>
      obtain ⟨hg, hcell, huse⟩ := hl.toGround.retire hold
      refine ⟨hg, hcell, fun c k => (huse c k).trans (and_congr_right fun hc => ?_), fun i h1 h2 => ?_⟩
      · constructor
        · intro hcp
          by_contra hcs
          obtain h | ⟨g, hg, -⟩ := honly c k hc hcs
          · exact hcp h
          · cases hg
        · rintro rfl
          exact hne
      · exact hl.toGround.retired_other hold.stop hne.symm hnew.stop hnew.lt hnew.extent h1 h2
    | some g =>
      obtain ⟨hlogUse, hpg, hsg⟩ := hlog g rfl
      obtain ⟨hg1, hcell1, huse1⟩ := hl.toGround.retire hlogUse
      have hold1 := (huse1 page n).mpr ⟨hold, hpg⟩
      have hnew1 := (huse1 start pages).mpr ⟨hnew, hsg⟩
      obtain ⟨hg2, hcell2, huse2⟩ := hg1.retire hold1
      refine ⟨hg2, fun q hq => (hcell2 q hq).trans (hcell1 q hq), fun c k => ?_, fun i h1 h2 => ?_⟩
      · rw [Fs.dropFile, Fs.drop, Fs.drop]
        dsimp only
        rw [huse2, huse1, and_assoc]
        refine and_congr_right fun hc => ?_
        constructor
        · rintro ⟨hcg, hcp⟩
          by_contra hcs
          obtain h | ⟨g', hg', h⟩ := honly c k hc hcs
          · exact hcp h
          · cases hg'
            exact hcg h
        · rintro rfl
          exact ⟨hsg, hne⟩
      · refine (hg1.retired_other hold1.stop hne.symm hnew1.stop hnew1.lt hnew1.extent h1 h2).trans ?_
        exact hl.toGround.retired_other hlogUse.stop hsg.symm hnew.stop hnew.lt hnew.extent h1 h2
  obtain ⟨hg, hcell, huse, hbytes⟩ := hdrop
  refine ⟨hl.retire hg hcell (fun c k hc => ((huse c k).mp hc).1) ?_, fun c k => ?_, hbytes⟩
  · intro b k hb hdead hreach c l hc q h1 h2
    obtain ⟨hc, rfl⟩ := (huse c l).mp hc
    obtain rfl : pages = l := Cell.extent.inj (hnew.extent.symm.trans hc.extent)
    refine hapart b k hb ?_ hreach q h1 h2
    rintro rfl
    exact hdead ((huse b pages).mpr ⟨hnew, rfl⟩).live
  · rw [huse c k]
    constructor
    · rintro ⟨hc, rfl⟩
      exact ⟨rfl, Cell.extent.inj (hc.extent.symm.trans hnew.extent)⟩
    · rintro ⟨rfl, rfl⟩
      exact ⟨hnew, rfl⟩

theorem Fs.free_drop {page i : Nat} (h : (fs.files i).free = true ∨ (fs.files i).page = page)
    (hi : i < maxOpenFiles) : ((fs.drop page).files i).free = true := by
  unfold Fs.drop
  dsimp only
  split
  · rfl
  · rename_i hpage
    exact h.resolve_right fun heq => hpage ⟨hi, heq⟩

theorem Fs.files_drop {page i : Nat} (h : (fs.files i).page ≠ page) :
    (fs.drop page).files i = fs.files i := if_neg fun hp => h hp.2

/-- The slots of the file and its log are free then. -/
theorem Fs.free_dropFile {page i : Nat} {log : Option LogShape} (hi : i < maxOpenFiles)
    (h : (fs.files i).free = true ∨ (fs.files i).page = page ∨
      ∃ g, log = some g ∧ (fs.files i).page = g.page) :
    ((fs.dropFile page log).files i).free = true := by
  match log with
  | none =>
    refine Fs.free_drop ?_ hi
    obtain h | h | ⟨g, hg, -⟩ := h
    · exact .inl h
    · exact .inr h
    · cases hg
  | some g =>
    refine Fs.free_drop ?_ hi
    by_cases hpage : (fs.files i).free = true ∨ (fs.files i).page = g.page
    · exact .inl (Fs.free_drop hpage hi)
    · push Not at hpage
      rw [Fs.files_drop hpage.2]
      obtain h | h | ⟨g', hg', h⟩ := h
      · exact absurd h hpage.1
      · exact .inr h
      · cases hg'
        exact absurd h hpage.2

theorem Fs.files_dropFile {page i : Nat} {log : Option LogShape} (h : (fs.files i).page ≠ page)
    (hlog : ∀ g, log = some g → (fs.files i).page ≠ g.page) :
    (fs.dropFile page log).files i = fs.files i := by
  match log with
  | none => exact Fs.files_drop h
  | some g =>
    have hg := Fs.files_drop (hlog g rfl)
    refine (Fs.files_drop ?_).trans hg
    rw [hg]
    exact h

theorem Fs.fds_dropFile (page : Nat) (log : Option LogShape) (fs : Fs) :
    (fs.dropFile page log).fds = fs.fds ∧ (fs.dropFile page log).nextFree = fs.nextFree := by
  match log with
  | none => exact ⟨rfl, rfl⟩
  | some _ => exact ⟨rfl, rfl⟩

/-! ## The merge -/

variable {B' : Nat → Prop} {hdr : FileHeader} {d j start o : Nat}

theorem Holds.slot_ne (h : Holds name fs B s) (hr : Reserved fs fs' B B' hdr j start) :
    s.slot ≠ j := by
  rintro rfl
  have hfree := hr.slot.2
  have hpages := h.pages
  rw [File.free, h.cached.maxPages, decide_eq_true_eq] at hfree
  omega

/-- The extents of before are as they were. -/
theorem Reserved.preserved (hr : Reserved fs fs' B B' hdr j start)
    (hc : Copied fs' content d start o fs'') (ho : o + 26 ≤ 256 * hdr.maxPages) :
    Preserved fs.flash fs''.flash B := by
  intro b n huse i h1 h2
  have hnew : InUse fs'.flash B' start hdr.maxPages := (hr.inUse _ _).mpr (.inl ⟨rfl, rfl⟩)
  have hold : InUse fs'.flash B' b n := (hr.inUse _ _).mpr (.inr huse)
  have hne : b ≠ start := by
    rintro rfl
    exact hr.fresh n huse
  have hpage : ¬ (start ≤ i / 256 ∧ i / 256 < start + hdr.maxPages) :=
    hr.layout.tiled.disjoint hold.stop hold.lt hold.extent hnew.stop hnew.lt hnew.extent hne
      (by omega) (by omega)
  rw [hc.other i ?_, hr.bytes b n huse i h1 h2]
  simp only [absoluteOffset, headerSize, pageSize]
  omega

/-- The copy keeps the layout. -/
theorem Reserved.layout_copied (hr : Reserved fs fs' B B' hdr j start)
    (hc : Copied fs' content d start o fs'') (ho : o + 26 ≤ 256 * hdr.maxPages) :
    Layout fs''.flash fs''.nextFree B' ∧ ∀ c k, InUse fs''.flash B' c k ↔ InUse fs'.flash B' c k := by
  have hnew : InUse fs'.flash B' start hdr.maxPages := (hr.inUse _ _).mpr (.inl ⟨rfl, rfl⟩)
  rw [hc.nextFree]
  refine hr.layout.data hnew ?_ ?_
  · intro i hi
    refine hc.other i ?_
    simp only [absoluteOffset, headerSize, pageSize]
    omega
  · refine readHeader_congr fun i hi => hc.other _ ?_
    simp only [absoluteOffset]
    omega

/-- The flash when the old extents are given up. -/
theorem Holds.moved (h : Holds name fs B s) (hr : Reserved fs fs' B B' hdr j start)
    (hc : Copied fs' content d start s.size fs'') (hfit : s.size + 26 ≤ 256 * hdr.maxPages) :
    Layout ((repoint s.page j fs'').dropFile s.page s.log).flash fs''.nextFree B' ∧
      (∀ c k, InUse ((repoint s.page j fs'').dropFile s.page s.log).flash B' c k ↔
        c = start ∧ k = hdr.maxPages) ∧
      readHeader ((repoint s.page j fs'').dropFile s.page s.log).flash start = hdr.valid ∧
      ∀ off, off < s.size →
        ((repoint s.page j fs'').dropFile s.page s.log).flash (absoluteOffset start off) =
          content off := by
  obtain ⟨hsame, -⟩ := repoint_spec s.page j fs''
  obtain ⟨hl, huse⟩ := hr.layout_copied hc hfit
  have huse' : ∀ c k, InUse (repoint s.page j fs'').flash B' c k ↔
      (c = start ∧ k = hdr.maxPages) ∨ InUse fs.flash B c k := by
    intro c k
    rw [hsame.flash, huse, hr.inUse]
  rw [← hsame.flash, ← hsame.nextFree] at hl
  have hne : ∀ b n, InUse fs.flash B b n → start ≠ b := by
    rintro b n hb rfl
    exact hr.fresh n hb
  have hnew := (huse' start hdr.maxPages).mpr (.inl ⟨rfl, rfl⟩)
  have holds : ∀ b k, InUse (repoint s.page j fs'').flash B' b k → b ≠ start →
      InUse fs.flash B b k := by
    intro b k hb hbs
    exact ((huse' b k).mp hb).resolve_left fun heq => hbs heq.1
  have hlogs : ∀ g, s.log = some g → InUse (repoint s.page j fs'').flash B' g.page 5 ∧
      s.page ≠ g.page ∧ start ≠ g.page := by
    intro g hg
    have hlog := h.logged g hg
    exact ⟨(huse' _ _).mpr (.inr hlog.inUse), (h.page_ne hg).symm, hne _ _ hlog.inUse⟩
  obtain ⟨hl', huse'', hbytes⟩ := hl.dropFile hnew ((huse' _ _).mpr (.inr h.inUse)) hlogs
    (hne _ _ h.inUse) (fun b k hb hbs => h.only b k (holds b k hb hbs))
    (fun b k hb hbs => hr.apart b k (holds b k hb hbs))
  rw [hsame.nextFree] at hl'
  have hsmall := hl.tiled.extent start hdr.maxPages hnew.stop hnew.lt hnew.extent
  refine ⟨hl', huse'', ?_, fun off hoff => ?_⟩
  · rw [← hr.header]
    refine readHeader_congr fun i hi => ?_
    rw [hbytes _ (by simp only [pageSize]; omega)
      (by simp only [headerSize, pageSize] at hi ⊢; omega), hsame.flash, hc.other]
    simp only [absoluteOffset]
    omega
  · rw [hbytes _ (by simp only [absoluteOffset, pageSize]; omega)
      (by simp only [absoluteOffset, headerSize, pageSize]; omega), hsame.flash, hc.data off hoff]

/-- The slots of the file and its log are free then, and slot `j` has the new file. -/
theorem Holds.moved_files (h : Holds name fs B s) (hr : Reserved fs fs' B B' hdr j start)
    (hc : Copied fs' content d start o fs'') :
    (∃ r, ((repoint s.page j fs'').dropFile s.page s.log).files j =
      { page := start
        fileEnd := 0
        maxPages := hdr.maxPages
        recordCount := -1
        references := r
        modified := hdr.check hdrFlagModified }) ∧
      ∀ i, i < maxOpenFiles → i ≠ j →
        (((repoint s.page j fs'').dropFile s.page s.log).files i).free = true := by
  obtain ⟨hsame, -⟩ := repoint_spec s.page j fs''
  have hfiles : fs''.files = _ := hc.files.trans hr.files
  refine ⟨?_, fun i hi hij => Fs.free_dropFile hi ?_⟩
  · obtain ⟨r, hrefs⟩ := hsame.files j
    rw [hfiles, Function.update_self] at hrefs
    refine ⟨r, ?_⟩
    rw [Fs.files_dropFile, hrefs]
    · rw [hrefs]
      rintro rfl
      exact hr.fresh _ h.inUse
    · intro g hg
      rw [hrefs]
      rintro rfl
      exact hr.fresh _ (h.logged g hg).inUse
  · obtain ⟨r, hrefs⟩ := hsame.files i
    rw [hfiles, Function.update_of_ne hij] at hrefs
    rw [hrefs]
    by_cases hslot : i = s.slot
    · subst hslot
      exact .inr (.inl h.cached.page)
    · by_cases hlog : ∃ g, s.log = some g ∧ i = g.slot
      · obtain ⟨g, hg, rfl⟩ := hlog
        exact .inr (.inr ⟨g, hg, (h.logged g hg).file⟩)
      · exact .inl (h.free i hi hslot fun g hg heq => hlog ⟨g, hg, heq⟩)

/-- The open descriptors have the new file then. -/
theorem Holds.moved_fds (h : Holds name fs B s) (hr : Reserved fs fs' B B' hdr j start)
    (hc : Copied fs' content d start o fs'') {d' : Nat} (hd : d' < fdSetSize)
    (hused : (fs.fds d').flags ≠ 0) : (repoint s.page j fs'').fds d' =
      { fs.fds d' with
        file := some j
        offset := if d' = d then o else (fs.fds d').offset } := by
  obtain ⟨-, hfds⟩ := repoint_spec s.page j fs''
  obtain ⟨hfile, -⟩ := h.fds d' hd hused
  have hslot := h.slot_ne hr
  have hold : fs''.fds d' = { fs.fds d' with
      offset := if d' = d then o else (fs.fds d').offset } := by
    rw [hc.fds, hr.fds]
    by_cases hdd : d' = d
    · subst hdd
      rw [Function.update_self, if_pos rfl]
    · rw [Function.update_of_ne hdd, if_neg hdd]
  have hopen : fs''.openOn s.page d' = true := by
    rw [Fs.openOn, hold, hfile, Option.any_some, hc.files, hr.files, Function.update_of_ne hslot,
      h.cached.page, decide_eq_true hused, decide_eq_true rfl, Bool.true_and]
  rw [hfds d' hd, if_pos hopen, hold]

/-- Every descriptor keeps its flags. -/
theorem Holds.moved_flags (h : Holds name fs B s) (hr : Reserved fs fs' B B' hdr j start)
    (hc : Copied fs' content d start o fs'') {d' : Nat} (hd : d' < fdSetSize) :
    ((repoint s.page j fs'').fds d').flags = (fs.fds d').flags := by
  by_cases hused : (fs.fds d').flags = 0
  · obtain ⟨-, hfds⟩ := repoint_spec s.page j fs''
    have hflags : (fs''.fds d').flags = 0 := by
      rw [hc.fds, hr.fds]
      by_cases hdd : d' = d
      · subst hdd
        rw [Function.update_self]
        exact hused
      · rw [Function.update_of_ne hdd]
        exact hused
    have hopen : fs''.openOn s.page d' = false := by
      simp only [Fs.openOn, hflags, ne_eq, not_true_eq_false, decide_false, Bool.false_and]
    rw [hfds d' hd, hopen, if_neg Bool.false_ne_true, hflags, hused]
  · rw [h.moved_fds hr hc hd hused]

/-- The old extents are given up. -/
theorem Holds.remove_ends (h : Holds name fs B s) (hr : Reserved fs fs' B B' hdr j start)
    (hc : Copied fs' content d start o fs'') (ho : o + 26 ≤ 256 * hdr.maxPages) :
    Ends (removeByPage s.page false) (repoint s.page j fs'') fun r fs3 =>
      r = 0 ∧ fs3 = (repoint s.page j fs'').dropFile s.page s.log := by
  obtain ⟨hsame, -⟩ := repoint_spec s.page j fs''
  have hkeep : ∀ b n, InUse fs.flash B b n →
      readHeader (repoint s.page j fs'').flash b = readHeader fs.flash b := by
    intro b n hb
    rw [hsame.flash]
    exact h.layout.readHeader_preserved hb (hr.preserved hc ho)
  have hhdr := hkeep _ _ h.inUse
  refine removeByPage_ends s.log ?_ ?_ fun g hg => ⟨?_, (h.page_ne hg).symm, ?_⟩
  · rw [hhdr]
    exact h.inUse.live
  · rw [hhdr]
    exact h.titled.modified
  · rw [hhdr]
    exact (h.logged g hg).header
  · rw [hkeep _ _ (h.logged g hg).inUse]
    exact (h.logged g hg).inUse.live

/-- The last steps of `merge_log` before the descriptor is closed. -/
def Fs.settle (j start size : Nat) (fs : Fs) : Fs :=
  (fs.setFlash (writeHeader fs.flash (readHeader fs.flash start) start)).setFile j
    { fs.files j with modified := false, fileEnd := size }

/-- The open descriptors but for the one that the copy was read through. -/
theorem Holds.settled_fds (h : Holds name fs B s) (hr : Reserved fs fs' B B' hdr j start)
    (hc : Copied fs' content d start o fs'') {d' : Nat} (hd : d' < fdSetSize) (hdd : d' ≠ d)
    (size : Nat) :
    let merged := ((repoint s.page j fs'').dropFile s.page s.log).settle j start size
    (merged.fds d').flags = (fs.fds d').flags ∧ ((fs.fds d').flags ≠ 0 →
      (merged.fds d').offset = (fs.fds d').offset ∧
        (merged.fds d').ioFlags = (fs.fds d').ioFlags) := by
  intro merged
  have hdrop := (Fs.fds_dropFile s.page s.log (repoint s.page j fs'')).1
  have hfd : merged.fds d' = (repoint s.page j fs'').fds d' := congrFun hdrop d'
  rw [hfd]
  refine ⟨h.moved_flags hr hc hd, fun hused => ?_⟩
  rw [h.moved_fds hr hc hd hused, if_neg hdd]
  exact ⟨rfl, rfl⟩

theorem Holds.merged (h : Holds name fs B s) {pages : Nat} (hpages : pages = 17 ∨ pages = 34)
    (hfit : s.size + 26 ≤ 256 * pages)
    (hr : Reserved fs fs' B B' (reservedHeader (storedName name.bytes) pages 0) j start)
    (hc : Copied fs' content d start s.size fs'') :
    let merged := ((repoint s.page j fs'').dropFile s.page s.log).settle j start s.size
    Holds name merged B' ⟨j, start, pages, s.size, none⟩ ∧
      Shows merged ⟨j, start, pages, s.size, none⟩ content := by
  obtain ⟨hl, huse, hhdr, hdata⟩ := h.moved hr hc hfit
  obtain ⟨⟨r, hj⟩, hfree⟩ := h.moved_files hr hc
  obtain ⟨hfds, hnf⟩ := Fs.fds_dropFile s.page s.log (repoint s.page j fs'')
  obtain ⟨hsame, -⟩ := repoint_spec s.page j fs''
  have hnext : (repoint s.page j fs'').nextFree = fs''.nextFree := hsame.nextFree
  have hmoved : ∀ d', d' < fdSetSize → ((repoint s.page j fs'').fds d').flags ≠ 0 →
      ((repoint s.page j fs'').fds d').file = some j ∧
        ((repoint s.page j fs'').fds d').offset ≤ s.size := by
    intro d' hd hused
    rw [h.moved_flags hr hc hd] at hused
    rw [h.moved_fds hr hc hd hused]
    refine ⟨rfl, ?_⟩
    dsimp only
    split
    · exact le_rfl
    · exact (h.fds d' hd hused).2
  generalize (repoint s.page j fs'').dropFile s.page s.log = fs5 at hl huse hhdr hdata hj hfree hfds hnf ⊢
  have hstart := (huse start _).mpr ⟨rfl, rfl⟩
  have hvalid : (readHeader fs5.flash start).valid =
      (reservedHeader (storedName name.bytes) pages 0).valid := by
    rw [hhdr, FileHeader.valid_valid]
  obtain ⟨hhdr', hl', huse'⟩ := hl.rewrite hstart (fits_readHeader fs5.flash start)
    ((readHeader fs5.flash start).onto_or hdrFlagValid) (by rw [hhdr])
    (by rw [hvalid]; exact active_reserved _ _ (.inl rfl))
  rw [hvalid] at hhdr'
  have hfile : (fs5.settle j start s.size).files j =
      { page := start
        fileEnd := s.size
        maxPages := pages
        recordCount := -1
        references := r
        modified := false } := by
    simp only [Fs.settle, Fs.setFile, Fs.setFlash, Function.update_self, hj]
    rfl
  refine ⟨⟨⟨?_, hr.slot.1, ?_, ?_, hpages, hfit, ?_, ?_, ?_, ?_, ?_⟩, ?_⟩, ?_⟩
  · rw [← hnext, ← hnf] at hl'
    exact hl'
  · rw [hfile]
    exact ⟨rfl, rfl, rfl, rfl⟩
  · exact (huse' _ _).mpr hstart
  · have hnew := titled_reserved (storedName_storedName name.bytes) j start pages s.size
    rw [← hhdr'] at hnew
    exact hnew
  · intro g hg
    cases hg
  · intro b n hb
    exact .inl ((huse b n).mp ((huse' b n).mp hb)).1
  · intro i hi hij _
    simp only [Fs.settle, Fs.setFile, Function.update_of_ne hij]
    exact hfree i hi hij
  · intro d' hd hused
    simp only [Fs.settle, Fs.setFile, Fs.setFlash, hfds] at hused ⊢
    exact hmoved d' hd hused
  · intro g hg
    cases hg
  · intro off hoff
    rw [hfile, visible_unmodified rfl]
    refine (writeHeader_other (fits_readHeader fs5.flash start).name (.inr ?_)).trans (hdata off hoff)
    simp only [absoluteOffset]
    omega

/-- The reads of the copy loop. -/
theorem Holds.read_copied (h : Holds name fs B s) (hshow : Shows fs s content)
    (hr : Reserved fs fs' B B' hdr j start) (hc : Copied fs' content d start o fs'')
    (ho : o ≤ s.size) (hfit : s.size + 26 ≤ 256 * hdr.maxPages) (hd : d < fdSetSize)
    (hflags : (fs.fds d).flags = flagRead) (size : Nat) :
    Ends (cfsRead d size) fs'' fun r fs3 => r = some (Mem.read content o (min size (s.size - o))) ∧
      fs3 = fs''.setFd d { fs''.fds d with offset := o + min size (s.size - o) } := by
  have hpres := hr.preserved hc (by omega)
  have hslot := h.slot_ne hr
  have hfd : fs''.fds d = { fs.fds d with offset := o } := by
    rw [hc.fds, Function.update_self, hr.fds]
  have hfile : fs''.files s.slot = fs.files s.slot := by
    rw [hc.files, hr.files, Function.update_of_ne hslot]
  have hused : (fs.fds d).flags ≠ 0 := by
    rw [hflags]
    decide
  have hfits := h.fits
  have hpages := h.pages
  have hread : (fs''.fds d).flags &&& flagRead ≠ 0 := by
    rw [hfd, hflags]
    decide
  have hend : (fs''.files s.slot).fileEnd = s.size := by
    rw [hfile]
    exact h.cached.fileEnd
  have hoff : (fs''.fds d).offset = o := by rw [hfd]
  refine (Coffee.cfsRead_ends hd hread ?_ hend ?_ (by omega) ?_ size).mono ?_
  · rw [hfd]
    exact (h.fds d hd hused).1
  · rw [hoff]
    exact ho
  · intro hmod
    rw [hfile, h.cached.modified] at hmod
    obtain ⟨g, hg⟩ := Option.isSome_iff_exists.mp hmod
    rw [hfile, h.count g hg, h.cached.page, h.layout.readHeader_preserved h.inUse hpres]
    exact ⟨Int.natCast_nonneg _, h.titled.standard⟩
  · rintro _ fs3 ⟨rfl, rfl⟩
    rw [hoff]
    refine ⟨congrArg some (Mem.read_congr fun i hi => ?_), rfl⟩
    rw [hfile, h.visible_preserved hpres (by omega)]
    exact hshow _ (by omega)

/-- The copy of the file into the new extent. -/
theorem Holds.copy_ends (h : Holds name fs B s) (hshow : Shows fs s content)
    (hr : Reserved fs fs' B B' hdr j start) (hfit : s.size + 26 ≤ 256 * hdr.maxPages)
    (hd : d < fdSetSize) (hflags : (fs.fds d).flags = flagRead) (hoff : (fs.fds d).offset = 0) :
    Ends (copyLoop d 256 start (pageSize * pageCount) 0) fs' fun r fs'' =>
      r = some s.size ∧ Copied fs' content d start s.size fs'' := by
  have hfits := h.fits
  have hpages := h.pages
  have hstart : Copied fs' content d start 0 fs' := .zero (by rw [hr.fds, hoff]) start
  refine copyLoop_ends (by decide)
    (fun o fs'' ho hc => h.read_copied hshow hr hc ho hfit hd hflags 256) ?_ (pageSize * pageCount)
    0 fs' (Nat.zero_le _) ?_ hstart
  · intro off hlt
    refine hr.blank _ ?_ ?_
    · simp only [absoluteOffset, headerSize, pageSize]
      omega
    · simp only [absoluteOffset, headerSize, pageSize]
      omega
  · simp only [pageSize, pageCount]
    omega

/-- `merge_log` with what it leaves. -/
theorem mergeLog_ends (h : Holds name fs B s) (hshow : Shows fs s content) {extend : Nat}
    (hext : s.pages <<< extend = 17 ∨ s.pages <<< extend = 34) :
    Ends (mergeLog s.page extend) fs fun r fs' => ∃ B' s', Holds name fs' B' s' ∧
      Shows fs' s' content ∧ SameFds fs fs' ∧ s'.size = s.size ∧
      ((r = -1 ∧ s' = s) ∨ (r = 0 ∧ s'.log = none ∧ s'.pages = s.pages <<< extend)) := by
  have hname := h.titled.name
  have hstd := h.titled.standard
  have hnm : cString (readHeader fs.flash s.page).name = cString name.bytes := by
    rw [hname, cString_storedName]
  unfold mergeLog
  refine Ends.load (Ends.seq (cfsOpen_ends h hnm flagRead) ?_)
  rintro (_ | d) fs1 ⟨h1, hsame1, hopen⟩
  · obtain rfl := hopen
    exact Ends.ret ⟨B, s, h1, hshow, .refl _, rfl, .inl ⟨rfl, rfl⟩⟩
  · obtain ⟨hd, hfree, fd, hfds, hflags, -, -, hoff⟩ := hopen
    have hshow1 := hshow.sameStore hsame1
    have hfd : fs1.fds d = fd := by rw [hfds, Function.update_self]
    have hfds1 : ∀ d', d' ≠ d → fs1.fds d' = fs.fds d' := fun d' hdd => by
      rw [hfds, Function.update_of_ne hdd]
    have hpages : 1 ≤ s.pages <<< extend ∧ s.pages <<< extend < pagesPerSector := by
      simp only [pagesPerSector]
      omega
    have hgrow : s.pages ≤ s.pages <<< extend := by
      rw [Nat.shiftLeft_eq]
      exact Nat.le_mul_of_pos_right _ (Nat.two_pow_pos extend)
    have hfits := h.fits
    have hfit : s.size + 26 ≤ 256 * (s.pages <<< extend) := by omega
    have hmax := (extent_flags h.inUse.extent).1
    dsimp only
    rw [hname, hmax]
    refine Ends.seq (reserve_ends h1.layout hpages.1 hpages.2 (active_reserved _ _ (.inl rfl))
      h1.exists_free) ?_
    rintro (_ | j) fs2 ⟨B2, hres⟩
    · obtain ⟨hl2, hk⟩ := hres
      refine Ends.seq (cfsClose_ends (h1.kept hk hl2) d) ?_
      rintro _ fs3 ⟨h3, hsame3, hclosed, hothers⟩
      refine Ends.ret ⟨B2, s, h3, (h1.shows_kept hk hshow1).sameStore hsame3, ?_, rfl,
        .inl ⟨rfl, rfl⟩⟩
      refine .closed hfree hclosed fun d' _ hdd => ?_
      rw [hothers d' hdd, hk.fds, hfds1 d' hdd]
      exact ⟨rfl, fun _ => ⟨rfl, rfl⟩⟩
    · obtain ⟨start, hr⟩ := hres
      have hj : (fs2.files j).page = start := by rw [hr.files, Function.update_self]
      refine Ends.load ?_
      rw [adjustLogConfig_standard hstd, hj]
      refine Ends.seq (h1.copy_ends hshow1 hr hfit hd (by rw [hfd, hflags]) ?_) ?_
      · rw [hfd, hoff]
        rfl
      · rintro _ fs3 ⟨rfl, hc⟩
        obtain ⟨-, -, hnew, -⟩ := h1.moved hr hc hfit
        obtain ⟨hmerged, hmergedShow⟩ := h1.merged hext hfit hr hc
        -- the new header has the log sizes of the old one already
        have hstay : { readHeader ((repoint s.page j fs3).dropFile s.page s.log).flash start with
            logRecordSize := (readHeader fs.flash s.page).logRecordSize
            logRecords := (readHeader fs.flash s.page).logRecords } =
              readHeader ((repoint s.page j fs3).dropFile s.page s.log).flash start := by
          rw [hnew, hstd.1, hstd.2]
          rfl
        refine Ends.update (Ends.seq (h1.remove_ends hr hc hfit) ?_)
        rintro _ _ ⟨rfl, rfl⟩
        rw [if_neg (by decide)]
        refine Ends.update (Ends.update ?_)
        rw [hstay]
        refine Ends.seq (cfsClose_ends hmerged d) ?_
        rintro _ fs6 ⟨h6, hsame6, hclosed, hothers⟩
        refine Ends.ret ⟨B2, _, h6, hmergedShow.sameStore hsame6, ?_, rfl, .inr ⟨rfl, rfl, rfl⟩⟩
        refine .closed hfree hclosed fun d' hd' hdd => ?_
        have hkept := h1.settled_fds hr hc hd' hdd s.size
        rw [hfds1 d' hdd] at hkept
        rw [hothers d' hdd]
        exact hkept

end Adler.Coffee
