/-
  The state `deluge_disseminate` leaves behind, the same on the receiver and on the gateway up to
  the timers: every page complete in the version passed in, nothing queued, nothing pending.
-/
import Adler.Deluge.Refinement
import Adler.Deluge.Flash

namespace Adler.Deluge

open Lib (Mem)
open Node

/-- A node on which `deluge_disseminate(file, version)` has just returned 0. -/
structure Fresh (f : File) (v : Nat) (s : Node) : Prop where
  /-- `file_size`, which is -1 when the file cannot be opened a second time. -/
  size : s.size = f.len % 65536 ∨ s.size = 65535
  version : s.version = v % 256
  updateVersion : s.updateVersion = v % 256
  entries : s.entries = s.pageCount
  marks : ∀ i, i < s.pageCount → (s.pages i).mark = ⟨allPackets, true, v % 256⟩
  currentRxPage : s.currentRxPage = 0
  currentTxPage : s.currentTxPage = 0
  txSet : s.txSet = 0
  updateState : s.updateState = false
  data : s.file.data = f.data
  len : f.len ≤ s.file.len
  rxTimer : s.rxTimer = false
  txTimer : s.txTimer = false
  summaryFrom : s.summaryFrom = 0
  effects : ∀ x ∈ s.effects, ∃ fd, x = .openFd fd ∨ x = .closeFd fd

/-- A node with another page table and file. -/
def withTable (pages : Nat → Page) (file : File) (s : Node) : Node :=
  { s with pages := pages, file := file }

/-- The record `init_page` fills in for a page the node has. -/
def havePage (version : Nat) (crc : UInt16) (p : Page) : Page :=
  { p with flags := pageComplete, lastRequest := 0, lastData := 0, version := version,
           packetSet := allPackets, crc := crc }

theorem havePage_mark (version : Nat) (crc : UInt16) (p : Page) :
    (havePage version crc p).mark = ⟨allPackets, true, version⟩ := by
  simp [havePage, Page.mark, Page.complete]

theorem initPage_have (env : Env) (i : Nat) (s : Node) :
    initPage env i true s = withTable
      (Function.update s.pages i (havePage s.version
        (crc16Data (Mem.read (readFile env i env.stack s.file).2.1 0 sPage) 0) (s.pages i)))
      (readFile env i env.stack s.file).2.2 s := rfl

/-- What the loop of `init_object` does to the table and the file. -/
theorem foldl_initPage_have (env : Env) (s : Node) (n : Nat) :
    ∃ pages file, (List.range n).foldl (fun s i => initPage env i true s) s =
        withTable pages file s ∧
      (∀ i, i < n → ∃ crc p, pages i = havePage s.version crc p) ∧
      file.data = s.file.data ∧ s.file.len ≤ file.len := by
  induction n with
  | zero => exact ⟨s.pages, s.file, rfl, fun i hi => absurd hi (Nat.not_lt_zero i), rfl, Nat.le_refl _⟩
  | succ n ih =>
    obtain ⟨pages, file, heq, hpages, hdata, hlen⟩ := ih
    obtain ⟨hdata', hlen'⟩ := readFile_file env n env.stack file
    rw [List.range_succ, List.foldl_append, heq, List.foldl_cons, List.foldl_nil, initPage_have]
    refine ⟨_, _, rfl, ?_, hdata'.trans hdata, Nat.le_trans hlen hlen'⟩
    intro i hi
    by_cases hin : i = n
    · subst hin
      rw [Function.update_self]
      exact ⟨_, _, rfl⟩
    · rw [Function.update_of_ne hin]
      exact hpages i (by omega)

/-- `file_size` only opens and closes a descriptor of its own. -/
theorem fileSize_eq (e : InitEnv) (f : File) (s : Node) :
    ∃ l : List Effect, (fileSize e f s).2 = { s with effects := l ++ s.effects } ∧
      (∀ x ∈ l, ∃ fd, x = .openFd fd ∨ x = .closeFd fd) ∧
      (fileSize e f s).1 = if e.reopened.isSome then f.len % 65536 else 65535 := by
  unfold fileSize
  cases e.reopened with
  | none => exact ⟨[], rfl, by simp, rfl⟩
  | some fd => exact ⟨[.closeFd fd, .openFd fd], rfl, by simp, rfl⟩

/-- What `init_object` leaves when it returns 0: the object, with the table its loop has filled in. -/
theorem initObject_eq {e : InitEnv} {f : File} {v : Nat} {s s' : Node}
    (h : initObject e f v s = (0, s')) : ∃ fd block l size pages file,
      s' = clearCurrentPage (withTable pages file (allocPages block (startObject size v
        { openObject fd f s with effects := l ++ (openObject fd f s).effects }))) ∧
      (∀ x ∈ l, ∃ fd, x = .openFd fd ∨ x = .closeFd fd) ∧
      (size = if e.reopened.isSome then f.len % 65536 else 65535) ∧
      (∀ i, i < s'.pageCount → ∃ crc p, pages i = havePage (v % 256) crc p) ∧
      file.data = f.data ∧ f.len ≤ file.len := by
  unfold initObject at h
  cases hopen : e.opened with
  | none => simp [hopen] at h
  | some fd =>
    cases hheap : e.env.heap with
    | none => simp [hopen, hheap] at h
    | some block =>
      simp only [hopen, hheap, Prod.mk.injEq, true_and] at h
      obtain ⟨l, hfile, hl, hsize⟩ := fileSize_eq e f (openObject fd f s)
      rw [hfile] at h
      generalize (fileSize e f (openObject fd f s)).1 = size at h hsize
      obtain ⟨pages, file, heq, hpages, hdata, hlen⟩ := foldl_initPage_have e.env
        (allocPages block (startObject size v { openObject fd f s with
          effects := l ++ (openObject fd f s).effects })) _
      rw [initAllPages, heq] at h
      subst h
      exact ⟨fd, block, l, size, pages, file, rfl, hl, hsize, hpages, hdata, hlen⟩

theorem initObject_fresh {e : InitEnv} {f : File} {v : Nat} {s : Node}
    (h : initObject e f v Node.zero = (0, s)) :
    Fresh f v s ∧ (s.summaryTimer = false ∧ s.profileTimer = false ∧ s.nrequests = 0) ∧
      s.size = if e.reopened.isSome then f.len % 65536 else 65535 := by
  obtain ⟨fd, block, l, size, pages, file, rfl, hl, hsize, hpages, hdata, hlen⟩ := initObject_eq h
  refine ⟨?_, ⟨rfl, rfl, rfl⟩, hsize⟩
  exact {
    size := by
      rw [show _ = size from rfl, hsize]
      split
      · exact .inl rfl
      · exact .inr rfl
    version := rfl
    updateVersion := rfl
    entries := rfl
    marks := by
      intro i hi
      obtain ⟨crc, p, hp⟩ := hpages i hi
      show (pages i).mark = _
      rw [hp, havePage_mark]
    currentRxPage := rfl
    currentTxPage := rfl
    txSet := rfl
    updateState := rfl
    data := hdata
    len := hlen
    rxTimer := rfl
    txTimer := rfl
    summaryFrom := rfl
    effects := by
      intro x hx
      rcases List.mem_append.mp hx with hx | hx
      · exact hl x hx
      · exact ⟨fd, .inl (List.mem_singleton.mp hx)⟩ }

/-- `deluge_disseminate` initialises the object and starts the process. -/
theorem delugeDisseminate_init {start : Node → Node} {e : InitEnv} {f : File} {v : Nat}
    {s s' : Node} (h : delugeDisseminate start e f v s = (0, s')) :
    ∃ t, initObject e f v s = (0, t) ∧ s' = start t := by
  unfold delugeDisseminate at h
  split at h
  · cases h
  dsimp only at h
  split at h
  · cases h
  · rename_i hret
    have hzero : (initObject e f v s).1 = 0 := by
      unfold initObject at hret ⊢
      split
      · simp_all
      · split <;> simp_all
    simp only [Prod.mk.injEq, true_and] at h
    exact ⟨_, Prod.ext hzero rfl, h.symm⟩

/-- Starting the process leaves a fresh object fresh. -/
theorem Fresh.start {f : File} {v : Nat} {s : Node} (h : Fresh f v s) :
    Fresh f v (Rx.start s) ∧ Fresh f v (Tx.start s) :=
  ⟨{ h with size := h.size }, { h with size := h.size }⟩

theorem Rx.Booted.fresh {f : File} {v : Nat} {s : Node} (h : Rx.Booted f v s) : Fresh f v s := by
  obtain ⟨e, h⟩ := h
  obtain ⟨t, ht, rfl⟩ := delugeDisseminate_init h
  exact (initObject_fresh ht).1.start.1

theorem Tx.Booted.fresh {f : File} {v : Nat} {s : Node} (h : Tx.Booted f v s) : Fresh f v s := by
  obtain ⟨e, h⟩ := h
  obtain ⟨t, ht, rfl⟩ := delugeDisseminate_init h
  exact (initObject_fresh ht).1.start.2

/-- A receiver starts with no timer pending. -/
theorem Rx.Booted.profileTimer {f : File} {v : Nat} {s : Node} (h : Rx.Booted f v s) :
    s.profileTimer = false := by
  obtain ⟨e, h⟩ := h
  obtain ⟨t, ht, rfl⟩ := delugeDisseminate_init h
  exact (initObject_fresh ht).2.1.2.1

/-- It has sent no request, and its first round is as short as rounds can be, or twice that. -/
theorem Rx.Booted.interval {f : File} {v : Nat} {s : Node} (h : Rx.Booted f v s) :
    s.nrequests = 0 ∧ Rx.tLow ≤ s.rInterval ∧ s.rInterval ≤ 2 * Rx.tLow := by
  obtain ⟨e, h⟩ := h
  obtain ⟨t, ht, rfl⟩ := delugeDisseminate_init h
  refine ⟨(initObject_fresh ht).2.1.2.2, ?_⟩
  simp only [Rx.start, Rx.round, Rx.tLow, tHigh]
  split
  · decide
  · decide

/-! ## Runs along a list of events

  The concrete runs of this development start from a file of zeros. A page of zeros has packets of
  64 zeros, whose CRC is 0. -/

/-- An environment in which everything succeeds and memory holds zeros. -/
def quietEnv : Env := ⟨0, some fun _ => ⟨0, 0, 0, 0, 0, 0⟩, fun _ => 0, true, some sPage⟩

/-- The file of `n` zeros. -/
def zeroFile (n : Nat) : File := ⟨fun _ => 0, n⟩

/-- A boot in the quiet environment. -/
def quietInit : InitEnv := ⟨some 1, some 2, quietEnv⟩

/-- The arrival of a message. -/
def hear (bytes : List UInt8) : Env × Event := (quietEnv, .receive 7 (.ofBytes bytes fun _ => 0))

/-- The arrival of a profile with the given version bytes. -/
def hearProfile (version : Nat) (versions : List Nat) : Env × Event :=
  hear (DelugeMsgProfile.bytes ⟨version, versions.length, 0, fun i => versions.getD i 0⟩)

/-- The arrival of a packet of zeros, whatever its CRC field says. -/
def hearPacket (version pagenum packetnum : Nat) (crc : UInt16) : Env × Event :=
  hear (DelugeMsgPacket.bytes ⟨version, pagenum, packetnum, crc, 0, List.replicate sPkt 0⟩)

/-- The arrival of all packets of a page. -/
def hearPage (version pagenum : Nat) : List (Env × Event) :=
  (List.range nPkt).map fun k => hearPacket version pagenum k 0

/-- The arrival of a request for all packets of a page. -/
def hearRequest (version pagenum : Nat) : Env × Event :=
  hear (DelugeMsgRequest.bytes ⟨version, pagenum, allPackets, 0⟩)

/-- The firing of `rx_timer`. -/
def fireRx : Env × Event := (quietEnv, .rxTimer)

/-- The firing of `tx_timer`. -/
def fireTx : Env × Event := (quietEnv, .txTimer)

/-- The node after `deluge_disseminate` on a file of `n` zeros. -/
def Rx.boot (n version : Nat) : Node :=
  (delugeDisseminate Rx.start quietInit (zeroFile n) version Node.zero).2

/-- The boot succeeds. -/
theorem Rx.booted_boot (n version : Nat) : Rx.Booted (zeroFile n) version (Rx.boot n version) :=
  ⟨quietInit, Prod.ext rfl rfl⟩

/-- The gateway after `deluge_disseminate` on a file of `n` zeros. -/
def Tx.boot (n version : Nat) : Node :=
  (delugeDisseminate Tx.start quietInit (zeroFile n) version Node.zero).2

theorem Tx.booted_boot (n version : Nat) : Tx.Booted (zeroFile n) version (Tx.boot n version) :=
  ⟨quietInit, Prod.ext rfl rfl⟩

theorem Rx.exists_of_run (n v : Nat) (ok : Env × Event → Node → Prop)
    [∀ a s, Decidable (ok a s)] (as : List (Env × Event)) (p : Node → Bool)
    (hp : (Lib.runList (Lib.guarded ok fun a s => Rx.step a.1 a.2 s) as (Rx.boot n v)).map p =
      some true) : ∃ s, Lib.Reach (Rx.Booted (zeroFile n) v) Rx.Step ok s ∧ p s = true :=
  Lib.Reach.exists_of_run ok (fun _ _ _ h => .of_eq h) as p (Rx.booted_boot n v) hp

theorem Tx.exists_of_run (n v : Nat) (ok : Env × Event → Node → Prop)
    [∀ a s, Decidable (ok a s)] (as : List (Env × Event)) (p : Node → Bool)
    (hp : (Lib.runList (Lib.guarded ok fun a s => Tx.step a.1 a.2 s) as (Tx.boot n v)).map p =
      some true) : ∃ s, Lib.Reach (Tx.Booted (zeroFile n) v) Tx.Step ok s ∧ p s = true :=
  Lib.Reach.exists_of_run ok (fun _ _ _ h => .of_eq h) as p (Tx.booted_boot n v) hp

/-- The same with a ghost component, which the condition may look at. -/
theorem Rx.exists_of_ghost_run {γ : Type*} (n v : Nat) (g₀ : γ)
    (obs : Env × Event → Node → Node → γ → γ) (ok : Env × Event → Node × γ → Prop)
    [∀ a x, Decidable (ok a x)] (as : List (Env × Event)) (p : Node × γ → Bool)
    (hp : (Lib.runList (Lib.guarded ok (Lib.observedNext (fun a s => Rx.step a.1 a.2 s) obs)) as
      (Rx.boot n v, g₀)).map p = some true) :
    ∃ x, Lib.Reach (fun x => Rx.Booted (zeroFile n) v x.1 ∧ x.2 = g₀) (Lib.observed Rx.Step obs)
      ok x ∧ p x = true :=
  Lib.Reach.exists_of_run ok (Lib.observedNext_step fun _ _ _ h => .of_eq h) as p
    ⟨Rx.booted_boot n v, rfl⟩ hp

theorem Rx.exists_of_observed_run {γ : Type*} (n v : Nat) (g₀ : γ)
    (obs : Env × Event → Node → Node → γ → γ) (ok : Env × Event → Node → Prop)
    [∀ a s, Decidable (ok a s)] (as : List (Env × Event)) (p : Node × γ → Bool)
    (hp : (Lib.runList (Lib.guarded (fun a (x : Node × γ) => ok a x.1)
      (Lib.observedNext (fun a s => Rx.step a.1 a.2 s) obs)) as (Rx.boot n v, g₀)).map p =
        some true) :
    ∃ x, Lib.Reach (fun x => Rx.Booted (zeroFile n) v x.1 ∧ x.2 = g₀) (Lib.observed Rx.Step obs)
      (fun a x => ok a x.1) x ∧ p x = true :=
  Rx.exists_of_ghost_run n v g₀ obs (fun a x => ok a x.1) as p hp

end Adler.Deluge
