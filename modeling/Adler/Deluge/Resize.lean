/-
  The page table across a profile. `handle_profile` allocates the new table for the announced page
  count and copies the records of the old count into it, whichever is larger; the old count is that of
  `size`, which a profile without memory changes while the table stays.

  * `profileAccesses`: the records of both tables that `handle_profile` reads or writes.
  * `Resized`: the table it leaves.
  * `resize_safe_iff`: it is the right one in any case; no access leaves a table exactly when the page
    count neither exceeds the announced one nor the allocated records.
  * `rejected_unchanged_iff`: without memory `tx_set` and `size` have been written all the same; the
    node is as before exactly when they held these values already.
-/
import Adler.Deluge.Offers

namespace Adler.Deluge

open Lib (Mem Reach Always)
open Node

/-- The page tables of `handle_profile`. -/
inductive Table where
  | old
  | new
deriving DecidableEq

/-- The records `handle_profile` accesses, in order: `memcpy` from the old table to the new one, the
    loop over the pages both have, `init_page` of each further page, `highest_available_page`. -/
def profileAccesses (env : Env) (msg : DelugeMsgProfile) (s : Node) : List (Table × Nat) :=
  if msg.version ≤ s.updateVersion then []
  else match env.heap with
    | none => []
    | some block =>
      let npages := s.pageCount
      let common := if msg.npages < npages then msg.npages else npages
      let s := retabled env msg block s
      ((List.range npages).flatMap fun i => [(.old, i), (.new, i)]) ++
        (List.range common).map (.new, ·) ++
        (List.range' common (msg.npages - common)).map (.new, ·) ++
        (List.range (min (highestAvailablePage s + 1) s.pageCount)).map (.new, ·)

/-- The records a table has: those of the current one, and what `malloc` is asked for. -/
def tableSize (msg : DelugeMsgProfile) (s : Node) : Table → Nat
  | .old => s.entries
  | .new => (resized msg s).pageCount

/-- No access of `handle_profile` leaves its table. -/
def AccessesInside (env : Env) (msg : DelugeMsgProfile) (s : Node) : Prop :=
  ∀ x ∈ profileAccesses env msg s, x.2 < tableSize msg s x.1

instance (env : Env) (msg : DelugeMsgProfile) (s : Node) : Decidable (AccessesInside env msg s) :=
  inferInstanceAs (Decidable (∀ x ∈ profileAccesses env msg s, _))

/-- The table of `s'` is what the profile makes of that of `s`. -/
structure Resized (msg : DelugeMsgProfile) (s s' : Node) : Prop where
  pageCount : s'.pageCount = msg.npages
  entries : s'.entries = msg.npages
  /-- An old entry is cleared and gets the announced version when that is greater. -/
  cleared : ∀ i, i < min s.pageCount msg.npages → (s.pages i).version < msg.versionVector i →
    s'.pages i = { ({ s.pages i with packetSet := 0 } : Page).clearComplete with
      version := msg.versionVector i }
  /-- Else it is as it was. -/
  kept : ∀ i, i < min s.pageCount msg.npages → msg.versionVector i ≤ (s.pages i).version →
    s'.pages i = s.pages i
  /-- A further entry is a page of which nothing is there. -/
  fresh : ∀ i, s.pageCount ≤ i → i < msg.npages → (s'.pages i).complete = false ∧
    (s'.pages i).packetSet = 0 ∧ (s'.pages i).version = 0 ∧ (s'.pages i).flags = 0 ∧
    (s'.pages i).lastRequest = 0 ∧ (s'.pages i).lastData = 0

section

variable {env : Env} {msg : DelugeMsgProfile} {s : Node} {block : Nat → Page}

theorem retabled_pages (env : Env) (msg : DelugeMsgProfile) (s : Node) (block : Nat → Page) (i : Nat) :
    (retabled env msg block s).pages i =
      if min s.pageCount msg.npages ≤ i ∧ i < msg.npages then
        blankPage (if i < min s.pageCount msg.npages then
          reversionPage msg.versionVector i (if i < s.pageCount then s.pages i else block i)
          else if i < s.pageCount then s.pages i else block i)
      else if i < min s.pageCount msg.npages then
        reversionPage msg.versionVector i (if i < s.pageCount then s.pages i else block i)
      else if i < s.pageCount then s.pages i else block i := by
  have hk : (if msg.npages < s.pageCount then msg.npages else s.pageCount) =
      min s.pageCount msg.npages := by
    split <;> omega
  simp only [retabled, initPages_eq, reversionPages_eq, newTable, resized, hk]

theorem transition_pages (st : DelugeState) (s : Node) : (transition st s).pages = s.pages := by
  unfold transition
  split
  · rfl
  · split <;> rfl

/-- The end of `handle_profile` leaves the table alone. -/
theorem begun_table (version : Nat) (t : Node) :
    (armRx (transition .rx (beginUpdate version (scanPages t)))).pages = t.pages ∧
      (armRx (transition .rx (beginUpdate version (scanPages t)))).pageCount = t.pageCount ∧
      (armRx (transition .rx (beginUpdate version (scanPages t)))).entries = t.entries := by
  have hobj : (armRx (transition .rx (beginUpdate version (scanPages t)))).object =
      (beginUpdate version (scanPages t)).object := by
    rw [armRx_object, transition_object]
  exact ⟨transition_pages _ _, congrArg Object.pageCount hobj, congrArg Object.entries hobj⟩

theorem resized_of_accepted (hn : msg.npages < 256) :
    Resized msg s (armRx (transition .rx
      (beginUpdate msg.version (scanPages (retabled env msg block s))))) := by
  have htable := retabled_object env s hn block
  have hcount : (retabled env msg block s).pageCount = msg.npages := congrArg Object.pageCount htable
  have hentries : (retabled env msg block s).entries = msg.npages := congrArg Object.entries htable
  obtain ⟨hpages, hcountKept, hentriesKept⟩ :=
    begun_table msg.version (retabled env msg block s)
  constructor
  · rw [hcountKept, hcount]
  · rw [hentriesKept, hentries]
  · intro i hi hv
    rw [hpages, retabled_pages, if_neg (by omega), if_pos hi, if_pos (by omega), reversionPage,
      if_pos hv]
  · intro i hi hv
    rw [hpages, retabled_pages, if_neg (by omega), if_pos hi, if_pos (by omega), reversionPage,
      if_neg (by omega)]
  · intro i hi hlt
    rw [hpages, retabled_pages, if_pos (by omega)]
    exact ⟨by simp [blankPage, Page.complete], rfl, rfl, rfl, rfl, rfl⟩

/-- The records that are accessed: those copied, and those of the new table. -/
theorem mem_profileAccesses (hn : msg.npages < 256) (hv : s.updateVersion < msg.version)
    (hheap : env.heap = some block) (x : Table × Nat) :
    x ∈ profileAccesses env msg s ↔ x.2 < s.pageCount ∨ x.1 = .new ∧ x.2 < msg.npages := by
  have hcount : (retabled env msg block s).pageCount = msg.npages :=
    congrArg Object.pageCount (retabled_object env s hn block)
  obtain ⟨table, i⟩ := x
  simp only [profileAccesses, if_neg (Nat.not_le.mpr hv), hheap, hcount, List.mem_append,
    List.mem_flatMap, List.mem_range, List.mem_cons, List.not_mem_nil, or_false, List.mem_map,
    List.mem_range'_1, Prod.mk.injEq]
  constructor
  · rintro (((⟨j, hj, ⟨-, rfl⟩ | ⟨-, rfl⟩⟩ | ⟨j, hj, rfl, rfl⟩) | ⟨j, hj, rfl, rfl⟩) |
      ⟨j, hj, rfl, rfl⟩)
    · exact .inl hj
    · exact .inl hj
    · exact .inr ⟨rfl, by split at hj <;> omega⟩
    · exact .inr ⟨rfl, by split at hj <;> omega⟩
    · exact .inr ⟨rfl, by omega⟩
  · rintro (hi | ⟨rfl, hi⟩)
    · refine .inl (.inl (.inl ⟨i, hi, ?_⟩))
      match table with
      | .old => exact .inl ⟨rfl, rfl⟩
      | .new => exact .inr ⟨rfl, rfl⟩
    · by_cases hc : i < if msg.npages < s.pageCount then msg.npages else s.pageCount
      · exact .inl (.inl (.inr ⟨i, hc, rfl, rfl⟩))
      · exact .inl (.inr ⟨i, ⟨by omega, by omega⟩, rfl, rfl⟩)

/-- The copy is what leaves a table. -/
theorem accessesInside_iff (hn : msg.npages < 256) (hv : s.updateVersion < msg.version)
    (hheap : env.heap = some block) :
    AccessesInside env msg s ↔ s.pageCount ≤ msg.npages ∧ s.pageCount ≤ s.entries := by
  have hnew : tableSize msg s .new = msg.npages := resized_pageCount s hn
  constructor
  · intro h
    -- the last record that is copied
    have hlast : ∀ table, 0 < s.pageCount → s.pageCount - 1 < tableSize msg s table :=
      fun table hpos => h (table, s.pageCount - 1)
        ((mem_profileAccesses hn hv hheap _).mpr (.inl (Nat.sub_lt hpos Nat.one_pos)))
    have hold : 0 < s.pageCount → s.pageCount - 1 < s.entries := hlast .old
    have hnew : 0 < s.pageCount → s.pageCount - 1 < msg.npages := fun h => hnew ▸ hlast .new h
    omega
  · rintro ⟨hle, hentries⟩ ⟨table, i⟩ hx
    rcases (mem_profileAccesses hn hv hheap _).mp hx with hi | ⟨rfl, hi⟩
    · have hi : i < s.pageCount := hi
      match table with
      | .old => exact Nat.lt_of_lt_of_le hi hentries
      | .new => exact hnew ▸ Nat.lt_of_lt_of_le hi hle
    · exact hnew ▸ hi

end

namespace Rx

variable {a : Env × Event} {m : DelugeMsgProfile} {s s' : Node}

/-- What an accepted profile leaves. -/
theorem Accepts.resized (h : Accepts a s m) (hst : step a.1 a.2 s = some s') : Resized m s s' := by
  obtain ⟨block, -, rfl⟩ := h.eq_beginUpdate hst
  obtain ⟨hcount, hentries, hcleared, hkept, hfresh⟩ :=
    (resized_of_accepted (Event.npages_lt h.1) : Resized m { s with effects := [] } _)
  exact ⟨hcount, hentries, hcleared, hkept, hfresh⟩

/-- **Resizing the page table.** An accepted profile leaves the right table, and no access leaves a table
    exactly when the page count neither exceeds the announced one nor the records allocated. -/
theorem resize_safe_iff (h : Accepts a s m) (hst : step a.1 a.2 s = some s') :
    (Resized m s s' ∧ AccessesInside a.1 m s) ↔ s.pageCount ≤ m.npages ∧ s.pageCount ≤ s.entries := by
  obtain ⟨block, hblock⟩ := Option.isSome_iff_exists.mp h.2.2
  rw [accessesInside_iff (Event.npages_lt h.1) h.2.1 hblock]
  exact and_iff_right (h.resized hst)

/-- The profile that `hearProfile` delivers. -/
def heardProfile (version : Nat) (versions : List Nat) : DelugeMsgProfile :=
  .ofBuf (.ofBytes (DelugeMsgProfile.bytes
    ⟨version, versions.length, 0, fun i => versions.getD i 0⟩) fun _ => 0)

/-- A node with one page hears of a version with two. -/
theorem resize_safe_grow : ∃ s', step quietEnv (hearProfile 1 [1, 1]).2 (boot 256 0) = some s' ∧
    Resized (heardProfile 1 [1, 1]) (boot 256 0) s' ∧
    AccessesInside quietEnv (heardProfile 1 [1, 1]) (boot 256 0) := by
  have hacc : Accepts (hearProfile 1 [1, 1]) (boot 256 0) (heardProfile 1 [1, 1]) :=
    ⟨rfl, by decide, rfl⟩
  obtain ⟨s', hst⟩ : ∃ s', step quietEnv (hearProfile 1 [1, 1]).2 (boot 256 0) = some s' :=
    step_isSome fun p hp => by rw [hacc.1] at hp; cases hp
  exact ⟨s', hst, (resize_safe_iff hacc hst).mpr (by decide)⟩

/-- A node with two pages hears of a version with one: two records are copied into a table of one. -/
theorem resize_overruns_shrink :
    Reach (Booted (zeroFile 512) 0) Step Always (boot 512 0) ∧
      Accepts (hearProfile 1 [1]) (boot 512 0) (heardProfile 1 [1]) ∧
      ¬ AccessesInside quietEnv (heardProfile 1 [1]) (boot 512 0) := by
  refine ⟨.init (booted_boot 512 0), ⟨rfl, by decide, rfl⟩, fun h => ?_⟩
  have hle := ((accessesInside_iff (by decide) (by decide) rfl).mp h).1
  exact absurd hle (by decide)

/-! ## A profile for which there is no memory -/

/-- The profile of a newer version, and there is no memory for its page table. -/
def Rejects (a : Env × Event) (s : Node) (m : DelugeMsgProfile) : Prop :=
  a.2.message = some (.profile m) ∧ s.updateVersion < m.version ∧ a.1.heap.isNone = true

/-- What `handle_profile` writes before `malloc` is there already: nothing is queued for sending, and
    the object is as long as the announced pages. -/
def Anticipates (m : DelugeMsgProfile) (s : Node) : Prop := s.txSet = 0 ∧ s.size = m.npages * sPage

instance (m : DelugeMsgProfile) (s : Node) : Decidable (Anticipates m s) :=
  inferInstanceAs (Decidable (s.txSet = 0 ∧ s.size = m.npages * sPage))

/-- The steps in which no payload leaves `current_page` and a profile without memory is anticipated. -/
structure RejectOk (a : Env × Event) (s : Node) : Prop where
  inBuffer : s.object.InBuffer a.2
  profile : a.2.OnProfile fun m => s.updateVersion < m.version → a.1.heap.isNone = true →
    Anticipates m s

instance (a : Env × Event) (s : Node) : Decidable (RejectOk a s) :=
  decidable_of_iff (s.object.InBuffer a.2 ∧ a.2.OnProfile fun m =>
      s.updateVersion < m.version → a.1.heap.isNone = true → Anticipates m s)
    ⟨fun h => ⟨h.1, h.2⟩, fun h => ⟨h.1, h.2⟩⟩

/-- A rejected profile leaves `tx_set` and `size` written. -/
theorem Rejects.eq_resized (h : Rejects a s m) (hst : Step a s s') :
    s' = resized m { s with effects := [] } := by
  obtain ⟨hm, hv, hheap⟩ := h
  have hstep := hst _ (step_profile hm)
  have hout := handleProfile_outcome a.1 { s with effects := [] } m
  rw [← hstep] at hout
  match hout with
  | .old hle => exact absurd hv (Nat.not_lt.mpr hle)
  | .noMemory _ _ => rfl
  | .accepted block _ hblock =>
    rw [hblock] at hheap
    cases hheap

theorem resized_eq_iff (hn : m.npages < 256) : resized m s = s ↔ Anticipates m s := by
  have hfit : m.npages * 256 < 65536 := by omega
  unfold Anticipates
  constructor
  · intro h
    have htx : 0 = s.txSet := congrArg Node.txSet h
    have hsize : m.npages * 256 % 65536 = s.size := congrArg Node.size h
    rw [Nat.mod_eq_of_lt hfit] at hsize
    exact ⟨htx.symm, hsize.symm⟩
  · rintro ⟨htx, hsize⟩
    rw [resized, Nat.mod_eq_of_lt hfit, ← htx, ← hsize]

/-- In runs in which every rejected profile is anticipated, the table has a record for each page. -/
theorem count_eq_entries {f : File} {v : Nat} (h : Reach (Booted f v) Step RejectOk s) :
    s.pageCount = s.entries := by
  refine h.invariant (I := fun s => s.pageCount = s.entries) ?_ ?_
  · intro s h0
    exact h0.fresh.entries.symm
  · intro a s s' hs hok hst
    have hchange := step_change (hst.eq_some hok.inBuffer)
    have hobj : s'.object.pageCount = s'.object.entries → s'.pageCount = s'.entries := id
    apply hobj
    generalize s'.object = o' at hchange
    cases hchange with
    | announce _ _ _ => rfl
    | resize hm hv hheap =>
      have hrej : Rejects a s _ := ⟨hm, hv, by rw [hheap]; rfl⟩
      have hsame := (resized_eq_iff (Event.npages_lt hm)).mpr (hok.profile _ hm hv hrej.2.2)
      have hcount := (resized_pageCount s (Event.npages_lt hm)).symm.trans
        (congrArg Node.pageCount hsame)
      exact hcount.trans hs
    | _ => exact hs

/-- The arrival of a profile while there is no memory. -/
def starve (a : Env × Event) : Env × Event := ({ a.1 with heap := none }, a.2)

end Rx

end Adler.Deluge
