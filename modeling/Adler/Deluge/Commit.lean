/-
  When a receiver commits an update. `handle_packet` commits after the page with the highest index,
  and `handle_profile` may leave any set of pages complete.

  * `Object.Below`: all pages below the current one are complete, in every reachable state.
  * `DelugeMsgProfile.EndsLast`: the profiles after which the page that is completed last has the
    highest index, or is never reached.
  * `committed_iff_complete`: when every newer profile is one of these, `version` equals
    `update_version` exactly when every page is complete, and `version` is raised and
    `update_state` set only with no page missing.
  * `loads_committed`: when no newer profile arrives while `update_state` is set, `codeload` is only
    called on a committed image.
-/
import Adler.Deluge.Boot

namespace Adler.Deluge

open Lib (Mem firstFailing Reach)

/-! ## Pages below the current one -/

namespace Object

instance (o : Object) : Decidable o.AllComplete :=
  inferInstanceAs (Decidable (∀ i, i < o.pageCount → _))

variable {env : Env} {e : Event} {pending : Bool} {o o' : Object} {m : DelugeMsgProfile}
  {p : DelugeMsgPacket}

/-- Every page below the current one is complete. -/
def Below (o : Object) : Prop := ∀ i, i < o.currentRxPage → (o.marks i).complete = true

theorem store_marks_self (o : Object) (env : Env) (p : DelugeMsgPacket) :
    (o.store env p).marks o.currentRxPage = ⟨o.setWith p, true, p.version⟩ := by
  simp [store]

theorem store_marks_ne (env : Env) (p : DelugeMsgPacket) {i : Nat} (h : i ≠ o.currentRxPage) :
    (o.store env p).marks i = o.marks i := by
  simp [store, h]

/-- Storing a page loses no complete page. -/
theorem store_complete (env : Env) (p : DelugeMsgPacket) {i : Nat}
    (h : i = o.currentRxPage ∨ (o.marks i).complete = true) :
    ((o.store env p).marks i).complete = true := by
  by_cases hi : i = o.currentRxPage
  · rw [hi, store_marks_self]
  · rw [store_marks_ne env p hi]
    exact h.resolve_left hi

/-- Collecting a packet changes no complete flag. -/
theorem collect_complete (o : Object) (p : DelugeMsgPacket) (i : Nat) :
    ((o.collect p).marks i).complete = (o.marks i).complete := by
  by_cases hi : i = o.currentRxPage
  · subst hi; simp [collect]
  · simp [collect, hi]

theorem announce_current (block : Nat → Mark) (h : m.npages < 256) :
    (o.announce m block).currentRxPage = (o.announce m block).available := by
  have hle := available_le (o.announce m block)
  exact Nat.mod_eq_of_lt (Nat.lt_of_le_of_lt hle h)

theorem below_available (h : o.currentRxPage = o.available) : o.Below := by
  intro i hi
  rw [h] at hi
  exact Lib.firstFailing_below (fun i => (o.marks i).complete) o.pageCount i hi

theorem below_store (env : Env) (p : DelugeMsgPacket) (h : o.Below) : (o.store env p).Below := by
  intro i hi
  have hmod : (o.store env p).currentRxPage ≤ o.currentRxPage + 1 := Nat.mod_le _ _
  refine store_complete env p ?_
  obtain hlt | heq := Nat.lt_or_eq_of_le (Nat.le_of_lt_succ (Nat.lt_of_lt_of_le hi hmod))
  · exact .inr (h i hlt)
  · exact .inl heq

/-- Every step keeps the pages below the current one complete. -/
theorem below_change (h : o.Below) (hc : Change env e pending o o') : o'.Below := by
  cases hc with
  | same => exact h
  | queue _ _ => exact h
  | spoil _ _ _ => exact h
  | collect _ _ _ _ => exact fun i hi => (collect_complete o _ i).trans (h i hi)
  | store _ _ _ => exact below_store env _ h
  | commit _ _ _ => exact below_store env _ h
  | announce hm _ _ => exact below_available (announce_current _ (Event.npages_lt hm))
  | resize _ _ _ => exact h
  | serve _ _ _ => exact h

/-- Storing the last page leaves none missing. -/
theorem allComplete_store (env : Env) (p : DelugeMsgPacket) (hcount : o.pageCount ≤ 255) (hbelow : o.Below)
    (hlast : o.AtLast) : (o.store env p).AllComplete := by
  intro i hi
  have hi : i < o.pageCount := hi
  have hat : o.currentRxPage = (o.pageCount + 65535) % 65536 := hlast
  refine store_complete env p ?_
  obtain hlt | hge := Nat.lt_or_ge i o.currentRxPage
  · exact .inr (hbelow i hlt)
  · exact .inl (by omega)

end Object

/-! ## Profiles -/

namespace DelugeMsgProfile

/-- Page `i` is missing after the profile is accepted in the state `o`. -/
def LeavesMissing (m : DelugeMsgProfile) (o : Object) (i : Nat) : Prop :=
  o.pageCount ≤ i ∨ (o.marks i).version < m.versionVector i ∨ (o.marks i).complete = false

instance (m : DelugeMsgProfile) (o : Object) (i : Nat) : Decidable (m.LeavesMissing o i) :=
  inferInstanceAs (Decidable (_ ∨ _))

/-- Accepted in the state `o`, the profile leaves the last page missing, or else the missing pages
    are not one block: the pages are fetched upwards from the first missing one, so the update
    ends with the last page, or stops for good at a page that was not asked for. -/
def EndsLast (m : DelugeMsgProfile) (o : Object) : Prop :=
  ∃ j < m.npages, m.LeavesMissing o j ∧
    (j + 1 = m.npages ∨ ∃ g < j, ¬ m.LeavesMissing o g ∧ ∃ i < g, m.LeavesMissing o i)

instance (m : DelugeMsgProfile) (o : Object) : Decidable (m.EndsLast o) :=
  inferInstanceAs (Decidable (∃ j < m.npages, _))

end DelugeMsgProfile

namespace Object

variable {env : Env} {e : Event} {pending : Bool} {o o' : Object} {m : DelugeMsgProfile}
  {p : DelugeMsgPacket}

theorem announce_missing_iff (block : Nat → Mark) {i : Nat} (hi : i < m.npages) :
    ((o.announce m block).marks i).complete = false ↔ m.LeavesMissing o i := by
  change (o.announcedMark m block i).complete = false ↔ _
  unfold announcedMark DelugeMsgProfile.LeavesMissing
  by_cases hcount : i < o.pageCount
  · rw [if_pos (by omega)]
    split
    · simp_all
    · rename_i hv
      have hle : ¬ o.pageCount ≤ i := by omega
      simp [hle, hv]
  · rw [if_neg (by omega), if_pos hi]
    simp [Nat.le_of_not_lt hcount]

/-- Some page is still missing, and storing the pages from the current one on reaches the last page
    before it has stored all of them. -/
def Unfinished (o : Object) : Prop :=
  ∃ j, o.currentRxPage ≤ j ∧ j < o.pageCount ∧ (o.marks j).complete = false ∧
    (j + 1 = o.pageCount ∨ ∃ g, o.currentRxPage ≤ g ∧ g < j ∧ (o.marks g).complete = true)

theorem Unfinished.not_allComplete (h : o.Unfinished) : ¬ o.AllComplete := by
  obtain ⟨j, _, hj, hmissing, _⟩ := h
  intro hall
  rw [hall j hj] at hmissing
  cases hmissing

/-- A page that is not the last one is stored. -/
theorem Unfinished.store (h : o.Unfinished) (hcount : o.pageCount ≤ 255) (hc : o.Completes p)
    (hlast : ¬ o.AtLast) : (o.store env p).Unfinished := by
  obtain ⟨j, hle, hj, hmissing, hend⟩ := h
  have hcur : (o.store env p).currentRxPage = o.currentRxPage + 1 :=
    Nat.mod_eq_of_lt (by omega)
  have hne : j ≠ o.currentRxPage := by
    rintro rfl
    rcases hend with hend | ⟨g, hg, hgj, _⟩
    · exact hlast (show o.currentRxPage = (o.pageCount + 65535) % 65536 by omega)
    · omega
  refine ⟨j, by omega, hj, ?_, ?_⟩
  · rw [store_marks_ne env p hne]
    exact hmissing
  · rcases hend with hend | ⟨g, hg, hgj, hgc⟩
    · exact .inl hend
    · have hgne : g ≠ o.currentRxPage := by
        rintro rfl
        rw [hc.1.2.2] at hgc
        cases hgc
      refine .inr ⟨g, by omega, hgj, ?_⟩
      rw [store_marks_ne env p hgne]
      exact hgc

theorem unfinished_announce (block : Nat → Mark) (hn : m.npages < 256) (h : m.EndsLast o) :
    (o.announce m block).Unfinished := by
  have hcur := announce_current (o := o) block hn
  obtain ⟨j, hj, hmissing, hend⟩ := h
  have hbelow : (o.announce m block).Below := below_available hcur
  -- the current page is the first missing one
  have hfirst : ∀ i, i < m.npages → m.LeavesMissing o i →
      (o.announce m block).currentRxPage ≤ i := by
    intro i hi hm
    by_contra hlt
    have hcomplete := hbelow i (by omega)
    rw [(announce_missing_iff block hi).mpr hm] at hcomplete
    cases hcomplete
  refine ⟨j, hfirst j hj hmissing, hj, (announce_missing_iff block hj).mpr hmissing, ?_⟩
  rcases hend with hend | ⟨g, hg, hgc, i, hi, him⟩
  · exact .inl hend
  · refine .inr ⟨g, Nat.le_trans (hfirst i (by omega) him) (Nat.le_of_lt hi), hg, ?_⟩
    rw [← announce_missing_iff block (by omega)] at hgc
    exact Bool.of_not_eq_false hgc

/-- A node is either done with its update or has work left that the last page ends. -/
def CommitInv (o : Object) : Prop :=
  (o.version = o.updateVersion ∧ o.AllComplete) ∨ (o.version < o.updateVersion ∧ o.Unfinished)

theorem CommitInv.iff (h : o.CommitInv) : o.version = o.updateVersion ↔ o.AllComplete := by
  rcases h with ⟨hv, hall⟩ | ⟨hv, hun⟩
  · simp [hv, hall]
  · simp [Nat.ne_of_lt hv, hun.not_allComplete]

theorem CommitInv.le (h : o.CommitInv) : o.version ≤ o.updateVersion := by
  rcases h with ⟨hv, _⟩ | ⟨hv, _⟩ <;> omega

theorem CommitInv.collect (h : o.CommitInv) : (o.collect p).CommitInv := by
  rcases h with ⟨hv, hall⟩ | ⟨hv, j, hle, hj, hmissing, hend⟩
  · exact .inl ⟨hv, fun i hi => (collect_complete o p i).trans (hall i hi)⟩
  · refine .inr ⟨hv, j, hle, hj, (collect_complete o p j).trans hmissing, ?_⟩
    refine hend.imp_right fun ⟨g, hg, hgj, hgc⟩ => ⟨g, hg, hgj, ?_⟩
    exact (collect_complete o p g).trans hgc

theorem CommitInv.store (h : o.CommitInv) (hcount : o.pageCount ≤ 255) (hc : o.Completes p)
    (hlast : ¬ o.AtLast) : (o.store env p).CommitInv := by
  rcases h with ⟨hv, hall⟩ | ⟨hv, hun⟩
  · exact .inl ⟨hv, fun i hi => store_complete env p (.inr (hall i hi))⟩
  · exact .inr ⟨hv, hun.store hcount hc hlast⟩

/-- What the profile of an event has to be like for the update to end with its last page. -/
def ProfileOk (o : Object) (env : Env) (m : DelugeMsgProfile) : Prop :=
  o.updateVersion < m.version →
    if env.heap.isSome then m.EndsLast o else m.npages = o.pageCount

instance (o : Object) (env : Env) : DecidablePred (o.ProfileOk env) := fun m => by
  unfold ProfileOk
  infer_instance

theorem commitInv_change (hcount : o.pageCount ≤ 255) (hbelow : o.Below) (h : o.CommitInv)
    (hok : e.OnProfile (o.ProfileOk env)) (hc : Change env e pending o o') : o'.CommitInv := by
  cases hc with
  | same => exact h
  | queue _ _ => exact h
  | spoil _ _ _ => exact h
  | collect _ _ _ _ => exact h.collect
  | store _ hcomp hlast => exact h.store hcount hcomp hlast
  | commit _ hcomp hlast => exact .inl ⟨rfl, allComplete_store env _ hcount hbelow hlast⟩
  | announce hm hv hheap =>
    have hends := hok _ hm hv
    simp only [hheap, Option.isSome_some, if_true] at hends
    exact .inr ⟨Nat.lt_of_le_of_lt h.le hv, unfinished_announce _ (Event.npages_lt hm) hends⟩
  | resize hm hv hheap =>
    have hsame := hok _ hm hv
    simp only [hheap, Option.isSome_none, Bool.false_eq_true, if_false] at hsame
    unfold CommitInv AllComplete Unfinished resize
    rw [hsame]
    exact h
  | serve _ _ _ => exact h

/-- Only a commit changes `version` or sets `update_state`. -/
theorem raised_change (hc : Change env e pending o o')
    (hr : o'.version ≠ o.version ∨ (o.updateState = false ∧ o'.updateState = true)) :
    ∃ p, o.AtLast ∧ o' = (o.store env p).commit := by
  have hquiet : o'.version = o.version → o'.updateState = o.updateState → False := by
    intro hv hu
    rcases hr with hr | ⟨h0, h1⟩
    · exact hr hv
    · rw [hu, h0] at h1
      cases h1
  cases hc with
  | commit _ _ hlast => exact ⟨_, hlast, rfl⟩
  | _ => exact (hquiet rfl rfl).elim

end Object

theorem Fresh.below {f : File} {v : Nat} {s : Node} (h : Fresh f v s) : s.object.Below :=
  fun i hi => absurd (h.currentRxPage ▸ hi : i < 0) (Nat.not_lt_zero i)

theorem Fresh.allComplete {f : File} {v : Nat} {s : Node} (h : Fresh f v s) :
    s.object.AllComplete := fun i hi => congrArg Mark.complete (h.marks i hi)

namespace Rx

/-! ## The commit of an update -/

/-- The steps in which no payload leaves `current_page` and every newer profile leaves work that
    ends with the last page. A profile for which there is no memory keeps the page count. -/
structure CommitOk (a : Env × Event) (s : Node) : Prop where
  inBuffer : s.object.InBuffer a.2
  profile : a.2.OnProfile (s.object.ProfileOk a.1)

instance (a : Env × Event) (s : Node) : Decidable (CommitOk a s) :=
  decidable_of_iff (s.object.InBuffer a.2 ∧ a.2.OnProfile (s.object.ProfileOk a.1))
    ⟨fun h => ⟨h.1, h.2⟩, fun h => ⟨h.1, h.2⟩⟩

variable {f : File} {v : Nat} {s : Node}

theorem commitOk_inv (h : Reach (Booted f v) Step CommitOk s) :
    s.object.Below ∧ s.object.CommitInv := by
  refine h.invariant (I := fun s => s.object.Below ∧ s.object.CommitInv) ?_ ?_
  · intro s h0
    have hfresh := h0.fresh
    exact ⟨hfresh.below, .inl ⟨hfresh.version.trans hfresh.updateVersion.symm,
      hfresh.allComplete⟩⟩
  · intro a s s' hinv hok hst
    have hchange := step_change (hst.eq_some hok.inBuffer)
    exact ⟨Object.below_change hinv.1 hchange,
      Object.commitInv_change (pageCount_le s) hinv.1 hinv.2 hok.profile hchange⟩

/-- The loop of `codeload` calls changes nothing but the file. -/
theorem loadLoop_object (loads : Nat → Nat × File) (i n : Nat) (s : Node) :
    (loadLoop loads i n s).2.object =
        { s.object with file := (loadLoop loads i n s).2.file } ∧
      ∀ t ∈ (loadLoop loads i n s).1, t.object = { s.object with file := t.file } := by
  induction n generalizing i s with
  | zero => exact ⟨rfl, fun t ht => absurd ht List.not_mem_nil⟩
  | succ n ih =>
    unfold loadLoop
    dsimp only
    split
    · refine ⟨rfl, ?_⟩
      intro t ht
      rw [List.mem_singleton.mp ht]
      rfl
    · obtain ⟨hlast, hcalls⟩ := ih (i + 1) { s with file := (loads i).2 }
      refine ⟨hlast, ?_⟩
      intro t ht
      rcases List.mem_cons.mp ht with rfl | ht
      · rfl
      · exact hcalls t ht

theorem poll_object (loads : Nat → Nat × File) (s : Node) :
    (poll loads s).2.object =
        { s.object with updateState := false, file := (poll loads s).2.file } ∧
      ∀ t ∈ (poll loads s).1, s.updateState = true ∧
        t.object = { s.object with updateState := false, file := t.file } := by
  unfold poll checkUpdate
  dsimp only
  split
  · rename_i hset
    obtain ⟨hlast, hcalls⟩ := loadLoop_object loads 0 maxRetry { s with updateState := false }
    exact ⟨hlast, fun t ht => ⟨hset, hcalls t ht⟩⟩
  · exact ⟨rfl, fun t ht => absurd ht List.not_mem_nil⟩

/-- The steps in which no payload leaves `current_page` and no newer profile is accepted while
    `update_state` is set. A profile for which there is no memory does no harm when it announces
    no more pages than there are. -/
def LoadOk : OtaEvent → Node → Prop
  | .deluge env e, s => s.object.InBuffer e ∧ e.OnProfile fun m => s.updateVersion < m.version →
      s.updateState = false ∨ (env.heap.isNone ∧ m.npages ≤ s.pageCount)
  | .poll _, _ => True

instance : ∀ a s, Decidable (LoadOk a s)
  | .deluge _ _, _ => inferInstanceAs (Decidable (_ ∧ _))
  | .poll _, _ => .isTrue trivial

/-- While `update_state` is set the image is committed. -/
def LoadInv (o : Object) : Prop :=
  o.Below ∧ (o.updateState = true → o.version = o.updateVersion ∧ o.AllComplete)

theorem loadInv_change {env : Env} {e : Event} {pending : Bool} {o o' : Object}
    (hcount : o.pageCount ≤ 255) (h : LoadInv o)
    (hok : e.OnProfile fun m => o.updateVersion < m.version →
      o.updateState = false ∨ (env.heap.isNone ∧ m.npages ≤ o.pageCount))
    (hc : Object.Change env e pending o o') : LoadInv o' := by
  refine ⟨Object.below_change h.1 hc, ?_⟩
  cases hc with
  | same => exact h.2
  | queue _ _ => exact h.2
  | spoil _ _ _ => exact h.2
  | collect _ _ _ _ =>
    intro hset
    obtain ⟨hv, hall⟩ := h.2 hset
    exact ⟨hv, fun i hi => (Object.collect_complete o _ i).trans (hall i hi)⟩
  | store _ _ _ =>
    intro hset
    obtain ⟨hv, hall⟩ := h.2 hset
    exact ⟨hv, fun i hi => Object.store_complete env _ (.inr (hall i hi))⟩
  | commit _ _ hlast =>
    exact fun _ => ⟨rfl, Object.allComplete_store env _ hcount h.1 hlast⟩
  | announce hm hv hheap =>
    intro hset
    have hset : o.updateState = true := hset
    rcases hok _ hm hv with hclear | ⟨hnone, _⟩
    · rw [hset] at hclear
      cases hclear
    · rw [hheap] at hnone
      cases hnone
  | resize hm hv hheap =>
    intro hset
    have hset : o.updateState = true := hset
    rcases hok _ hm hv with hclear | ⟨_, hle⟩
    · rw [hset] at hclear
      cases hclear
    · obtain ⟨hv, hall⟩ := h.2 hset
      exact ⟨hv, fun i hi => hall i (Nat.lt_of_lt_of_le hi hle)⟩
  | serve _ _ _ => exact h.2

/-- An event of the Deluge module as one of the mote. -/
def ota (a : Env × Event) : OtaEvent := .deluge a.1 a.2

/-- A step of the mote as a function. -/
def otaNext : OtaEvent → Node → Option Node
  | .deluge env e, s => step env e s
  | .poll loads, s => some (poll loads s).2

theorem otaNext_step (a : OtaEvent) (s s' : Node) (h : otaNext a s = some s') :
    OtaStep a s s' := by
  cases a with
  | deluge env e => exact Lib.Havoc.of_eq h
  | poll loads => exact (Option.some.inj h).symm

/-- A `codeload` that succeeds and leaves the file alone. -/
def loadOnce (f : File) : Nat → Nat × File := fun _ => (0, f)

end Rx

end Adler.Deluge
