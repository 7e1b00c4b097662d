/-
  Stopping and restarting the gateway. `deluge_process` owns the page table and the descriptor of the
  object; its exit path gives both back and keeps the pointers. The four callback timers belong to
  `ctimer_process`, and the exit path stops none of them.

  * `eventOps`: what each callback and handler does with the table and the descriptor.
  * `DelugeProcess.Step`: `deluge_disseminate`, `deluge_stop`, messages and timers, in any order.
  * `stopped_safe_iff`: a run has no fault as long as no timer whose callback reaches the table runs
    down while the process is stopped, and the first such timer is a fault.
-/
import Adler.Deluge.Boot
import Adler.Deluge.Frame
import Adler.Lib.Handle

namespace Adler.Deluge.Tx

open Lib (Handle Op Reach Settled allLive runOps)
open Node

/-- What `deluge_process` owns. -/
inductive Resource where
  /-- The block `current_object.pages` points to. -/
  | table
  /-- The open file `current_object.cfs_fd`. -/
  | file
  deriving DecidableEq

/-! ## What the functions of the file do with the resources -/

/-- `highest_available_page`; it looks at a record unless there are none. -/
def scanOps (s : Node) : List (Op Resource) := if 0 < s.pageCount then [.use .table] else []

/-- `send_request`. -/
def requestOps : List (Op Resource) := [.use .table]

/-- `advertise_summary`. -/
def summaryOps (s : Node) : List (Op Resource) := if constK ≤ s.recvAdv then [] else scanOps s

/-- `send_page`, with `read_page`. -/
def sendPageOps : List (Op Resource) := [.use .table, .use .file]

/-- `tx_callback`. -/
def txOps (s : Node) : List (Op Resource) :=
  if 0 ≤ s.currentTxPage ∧ s.txSet ≠ 0 then sendPageOps else []

/-- `send_profile`; its loop reads each record. -/
def profileOps (s : Node) : List (Op Resource) :=
  if s.broadcastProfile = true ∧ s.recvAdv < constK then scanOps s else []

/-- `handle_summary`; the loop of M.5 reads the records below `msg->highest_available`. -/
def handleSummaryOps (msg : DelugeMsgSummary) (s : Node) : List (Op Resource) :=
  scanOps s ++
    if msg.version = s.updateVersion ∧ highestAvailablePage s < msg.highestAvailable ∧
      msg.highestAvailable ≤ s.pageCount then [.use .table] else []

/-- `handle_request`. -/
def handleRequestOps (msg : DelugeMsgRequest) (s : Node) : List (Op Resource) :=
  if s.pageCount ≤ msg.pagenum then []
  else scanOps s ++
    if msg.version = s.version ∧ msg.pagenum ≤ highestAvailablePage s then [.use .table] else []

/-- `handle_packet`; a finished page is written and its record changed. -/
def handlePacketOps (packet : DelugeMsgPacket) (s : Node) : List (Op Resource) :=
  if packet.pagenum ≠ s.currentRxPage then []
  else [.use .table] ++
    if s.object.Completes packet then [.use .file] ++ [.use .table] else []

/-- `handle_profile`: the old records are copied, the old table is freed, and the new one takes its
    place. -/
def handleProfileOps (env : Env) (msg : DelugeMsgProfile) (s : Node) : List (Op Resource) :=
  if msg.version ≤ s.updateVersion then []
  else if env.heap.isSome then
    scanOps s ++ ([.release .table, .assign .table .live] ++
      if 0 < msg.npages then [.use .table] else [])
  else []

/-- `command_dispatcher`. -/
def messageOps (env : Env) (b : Packetbuf) (s : Node) : List (Op Resource) :=
  match b.message with
  | some (.summary m) => handleSummaryOps m s
  | some (.request m) => handleRequestOps m s
  | some (.packet m) => handlePacketOps m s
  | some (.profile m) => handleProfileOps env m s
  | none => []

/-- One event; a callback runs only when its timer is pending. -/
def eventOps (env : Env) (e : Event) (s : Node) : List (Op Resource) :=
  match e with
  | .receive _ b => messageOps env b s
  | .rxExpires => []
  | .rxTimer => if s.rxTimer then requestOps else []
  | .txTimer => if s.txTimer then txOps s else []
  | .summaryTimer => if s.summaryTimer then summaryOps s else []
  | .profileTimer => if s.profileTimer then profileOps s else []
  | .round => []

/-- `init_object`; `pageCount` is the number of records its loop fills in. -/
def initOps (e : InitEnv) (pageCount : Nat) : List (Op Resource) :=
  if e.opened.isSome then
    if e.env.heap.isSome then
      [.assign .file .live, .assign .table .live] ++ if 0 < pageCount then sendPageOps else []
    else [.assign .file .live, .assign .table .null, .release .file]
  else [.assign .file .null]

/-- The exit path of `deluge_process`. -/
def exitOps (s : Node) (handles : Resource → Handle) : List (Op Resource) :=
  (if 0 ≤ s.cfsFd then [.release .file] else []) ++
    if handles .table = .null then [] else [.release .table]

/-! ## The process -/

/-- The gateway's Deluge module: its variables, whether `deluge_process` runs, what the pointers to
    its resources are worth, and the operations that faulted so far. -/
structure DelugeProcess where
  node : Node
  running : Bool
  handles : Resource → Handle
  faults : List (Op Resource)

/-- Before the first call of `deluge_disseminate`. -/
def DelugeProcess.zero : DelugeProcess := ⟨Node.zero, false, fun _ => .null, []⟩

/-- What can happen. `deluge_disseminate` and `deluge_stop` are called by another process. -/
inductive Act where
  | disseminate (e : InitEnv) (f : File) (version : Nat)
  | stop
  | event (env : Env) (e : Event)

/-- The event is that of a `ctimer`. The round belongs to an `etimer` of `deluge_process`,
    which is removed when the process exits. -/
def isCtimer : Event → Bool
  | .receive _ _ | .round => false
  | .rxExpires | .rxTimer | .txTimer | .summaryTimer | .profileTimer => true

namespace DelugeProcess

/-- The resources after the operations. -/
def perform (ops : List (Op Resource)) (g : DelugeProcess) : DelugeProcess :=
  { g with
    handles := (runOps ops g.handles).1
    faults := g.faults ++ (runOps ops g.handles).2 }

/-- `process_start`, which does nothing when the process runs. -/
def processStart (running : Bool) (s : Node) : Node := if running then s else start s

/-- `deluge_disseminate`. -/
def disseminate (e : InitEnv) (f : File) (version : Nat) (g : DelugeProcess) : DelugeProcess :=
  if g.node.nextObjectId > 0 then g
  else
    let r := delugeDisseminate (processStart g.running) e f version g.node
    { perform (initOps e r.2.pageCount) g with
      node := r.2
      running := g.running || decide (r.1 = 0) }

/-- `deluge_stop`; `process_exit` runs the exit path of a process that runs. -/
def stop (g : DelugeProcess) : DelugeProcess :=
  let g := { g with node := { g.node with nextObjectId := 0 } }
  if g.running then { perform (exitOps g.node g.handles) g with running := false } else g

/-- One step. No message reaches a stopped process, whose connections are closed. -/
def next (a : Act) (g : DelugeProcess) : Option DelugeProcess :=
  match a with
  | .disseminate e f version => some (disseminate e f version g)
  | .stop => some (stop g)
  | .event env e =>
    if isCtimer e || g.running then
      (Tx.step env e g.node).map fun s => { perform (eventOps env e g.node) g with node := s }
    else some g

/-- The step relation; any state at all once `current_page` is overrun. -/
def Step (a : Act) (g g' : DelugeProcess) : Prop := Lib.Havoc (next a g) g'

/-! ## While the process runs -/

theorem settled_scanOps (s : Node) : Settled (scanOps s) := (Lib.settled_use Resource.table).ite _

theorem settled_sendPageOps : Settled sendPageOps :=
  (Lib.settled_use Resource.table).append (Lib.settled_use Resource.file)

theorem settled_messageOps (env : Env) (b : Packetbuf) (s : Node) :
    Settled (messageOps env b s) := by
  have htable := Lib.settled_use Resource.table
  unfold messageOps
  split
  · exact (settled_scanOps s).append (htable.ite _)
  · unfold handleRequestOps
    split
    · exact Lib.settled_nil
    · exact (settled_scanOps s).append (htable.ite _)
  · unfold handlePacketOps
    split
    · exact Lib.settled_nil
    · exact htable.append (((Lib.settled_use Resource.file).append htable).ite _)
  · unfold handleProfileOps
    split
    · exact Lib.settled_nil
    · apply Settled.ite
      exact (settled_scanOps s).append ((Lib.settled_replace Resource.table).append (htable.ite _))
  · exact Lib.settled_nil

/-- While the resources are live no event faults or loses one. -/
theorem settled_eventOps (env : Env) (e : Event) (s : Node) : Settled (eventOps env e s) := by
  match e with
  | .receive _ b => exact settled_messageOps env b s
  | .rxExpires => exact Lib.settled_nil
  | .rxTimer => exact (Lib.settled_use Resource.table).ite _
  | .txTimer => exact (settled_sendPageOps.ite _).ite _
  | .summaryTimer =>
    apply Settled.ite
    unfold summaryOps
    split
    · exact Lib.settled_nil
    · exact settled_scanOps s
  | .profileTimer => exact ((settled_scanOps s).ite _).ite _
  | .round => exact Lib.settled_nil

/-- The variables only `deluge_disseminate` and `deluge_stop` change. -/
def ofProcess (s : Node) : Int × Nat := (s.cfsFd, s.nextObjectId)

theorem handleSummary_ofProcess (env : Env) (s : Node) (m : DelugeMsgSummary) (sender : RimeAddr) :
    ofProcess (handleSummary env m sender s) = ofProcess s := by
  have hpost : ∀ t : Node, ofProcess (postReport m sender (highestAvailablePage s) t) =
      ofProcess t := by
    intro t
    unfold postReport
    split <;> rfl
  have hoffer : ∀ t : Node, ofProcess (offerRequest env m sender t) = ofProcess t := by
    intro t
    unfold offerRequest
    split
    · rfl
    · dsimp only
      split
      · rfl
      · have hkept := transition_kept (copySender sender (t.touchBelow m.highestAvailable)) .rx
        exact congrArg Prod.snd hkept
  unfold handleSummary
  dsimp only
  split
  · exact (hoffer _).trans (hpost _)
  · exact hpost _

/-- No event changes them. -/
theorem step_ofProcess {env : Env} {e : Event} {s s' : Node} (h : Tx.step env e s = some s') :
    ofProcess s' = ofProcess s := by
  by_cases hs : ∃ m, e.message = some (.summary m)
  · obtain ⟨m, hm⟩ := hs
    match e with
    | .receive sender b =>
      have hm : b.message = some (.summary m) := hm
      have h : commandDispatcherWith handleSummary handlePacket env sender b
        { s with effects := [] } = some s' := h
      simp only [commandDispatcherWith_eq, hm, Option.some.injEq] at h
      exact h ▸ handleSummary_ofProcess env { s with effects := [] } m sender
  · exact congrArg Prod.snd (step_kept h fun m hm => hs ⟨m, hm⟩)

/-! ## The steps -/

/-- A running process has both resources, and a number above 0 keeps `deluge_disseminate` out; a
    stopped one has neither. -/
structure Owns (g : DelugeProcess) : Prop where
  live : g.running = true → g.handles = allLive
  opened : g.running = true → 0 ≤ g.node.cfsFd
  busy : g.running = true → 0 < g.node.nextObjectId
  stopped : g.running = false → ∀ r, g.handles r ≠ .live

theorem initObject_ofProcess (e : InitEnv) (f : File) (v : Nat) (s : Node) :
    if e.opened.isSome ∧ e.env.heap.isSome then
      (initObject e f v s).1 = 0 ∧ 0 ≤ (initObject e f v s).2.cfsFd ∧
        (initObject e f v s).2.nextObjectId = (s.nextObjectId + 1) % 256
    else (initObject e f v s).1 = -1 := by
  unfold initObject
  match e.opened, e.env.heap with
  | none, none => rfl
  | none, some _ => rfl
  | some _, none => rfl
  | some fd, some block =>
    obtain ⟨l, hsize, _, _⟩ := fileSize_eq e f (openObject fd f s)
    obtain ⟨pages, file, hloop, _⟩ := foldl_initPage_have e.env
      (allocPages block (startObject (fileSize e f (openObject fd f s)).1 v
        (fileSize e f (openObject fd f s)).2)) _
    rw [if_pos ⟨rfl, rfl⟩]
    dsimp only
    rw [initAllPages, hloop, hsize]
    exact ⟨rfl, Int.natCast_nonneg fd, rfl⟩

theorem handles_eq_allLive {handles : Resource → Handle} (htable : handles .table = .live)
    (hfile : handles .file = .live) : handles = allLive := by
  funext r
  match r with
  | .table => exact htable
  | .file => exact hfile

/-- What `init_object` leaves of the resources. -/
theorem runOps_initOps (e : InitEnv) (n : Nat) (handles : Resource → Handle) :
    (runOps (initOps e n) handles).2 = [] ∧
      if e.opened.isSome ∧ e.env.heap.isSome then (runOps (initOps e n) handles).1 = allLive
      else (∀ r, handles r ≠ .live) → ∀ r, (runOps (initOps e n) handles).1 r ≠ .live := by
  unfold initOps
  match e.opened, e.env.heap with
  | none, none =>
    refine ⟨rfl, fun h r => ?_⟩
    match r with
    | .table => exact h .table
    | .file => exact Handle.noConfusion
  | none, some _ =>
    refine ⟨rfl, fun h r => ?_⟩
    match r with
    | .table => exact h .table
    | .file => exact Handle.noConfusion
  | some _, none =>
    refine ⟨rfl, fun _ r => ?_⟩
    match r with
    | .table => exact Handle.noConfusion
    | .file => exact Handle.noConfusion
  | some _, some _ =>
    have hlive : (runOps [Op.assign Resource.file .live, .assign .table .live] handles) =
        (allLive, []) := Prod.ext (handles_eq_allLive rfl rfl) rfl
    have huse : Settled (if 0 < n then sendPageOps else []) := settled_sendPageOps.ite _
    simp only [Option.isSome_some, if_true, and_self]
    rw [Lib.runOps_append, hlive, huse]
    exact ⟨rfl, rfl⟩

theorem owns_disseminate {g : DelugeProcess} (h : g.Owns) (e : InitEnv) (f : File) (v : Nat) :
    (disseminate e f v g).Owns ∧ (disseminate e f v g).faults = g.faults := by
  unfold disseminate
  split
  · exact ⟨h, rfl⟩
  · rename_i hfree
    have hstopped : g.running = false := by
      apply Bool.eq_false_iff.mpr
      intro hrun
      exact hfree (h.busy hrun)
    have hinit := initObject_ofProcess e f v g.node
    have hops := runOps_initOps e
      (delugeDisseminate (processStart g.running) e f v g.node).2.pageCount g.handles
    generalize hr : delugeDisseminate (processStart g.running) e f v g.node = r at hops ⊢
    rw [delugeDisseminate, if_neg hfree] at hr
    dsimp only at hr
    obtain ⟨hfaults, hhandles⟩ := hops
    have hsame : (perform (initOps e r.2.pageCount) g).faults = g.faults := by
      show g.faults ++ _ = g.faults
      rw [hfaults, List.append_nil]
    refine ⟨?_, hsame⟩
    split at hinit
    · rename_i hok
      obtain ⟨hret, hfd, hid⟩ := hinit
      rw [if_pos hok] at hhandles
      rw [if_neg (by omega)] at hr
      subst hr
      have hnode : ofProcess (processStart g.running (initObject e f v g.node).2) =
          ofProcess (initObject e f v g.node).2 := by
        rw [hstopped]
        rfl
      have hzero : g.node.nextObjectId = 0 := Nat.eq_zero_of_not_pos hfree
      refine ⟨fun _ => hhandles, fun _ => ?_, fun _ => ?_, fun hno => ?_⟩
      · have hopen : (processStart g.running (initObject e f v g.node).2).cfsFd = _ :=
          congrArg Prod.fst hnode
        show 0 ≤ (processStart g.running (initObject e f v g.node).2).cfsFd
        rw [hopen]
        exact hfd
      · have hnext : (processStart g.running (initObject e f v g.node).2).nextObjectId = _ :=
          (congrArg Prod.snd hnode).trans hid
        show 0 < (processStart g.running (initObject e f v g.node).2).nextObjectId
        rw [hnext, hzero]
        decide
      · simp at hno
    · rename_i hbad
      rw [if_neg hbad] at hhandles
      rw [if_pos (by omega)] at hr
      subst hr
      have hno : (g.running || decide ((-1 : Int) = 0)) = false := by
        rw [hstopped]
        rfl
      refine ⟨fun hrun => ?_, fun hrun => ?_, fun hrun => ?_, fun _ => ?_⟩
      · exact absurd (hno.symm.trans hrun) Bool.false_ne_true
      · exact absurd (hno.symm.trans hrun) Bool.false_ne_true
      · exact absurd (hno.symm.trans hrun) Bool.false_ne_true
      · exact hhandles (h.stopped hstopped)

/-- The exit path gives both resources back. -/
theorem owns_stop {g : DelugeProcess} (h : g.Owns) :
    (stop g).Owns ∧ (stop g).faults = g.faults := by
  unfold stop
  dsimp only
  split
  · rename_i hrun
    have hexit : exitOps { g.node with nextObjectId := 0 } g.handles =
        [.release .file, .release .table] := by
      have hfd : 0 ≤ ({ g.node with nextObjectId := 0 } : Node).cfsFd := h.opened hrun
      have hnull : ¬ g.handles .table = .null := by
        rw [h.live hrun]
        exact Handle.noConfusion
      rw [exitOps, if_pos hfd, if_neg hnull]
      rfl
    rw [hexit]
    have hlive := h.live hrun
    refine ⟨⟨fun hno => ?_, fun hno => ?_, fun hno => ?_, fun _ r => ?_⟩, ?_⟩
    · cases hno
    · cases hno
    · cases hno
    · show (runOps [.release .file, .release .table] g.handles).1 r ≠ .live
      rw [hlive]
      match r with
      | .table => exact Handle.noConfusion
      | .file => exact Handle.noConfusion
    · show g.faults ++ (runOps [.release .file, .release .table] g.handles).2 = g.faults
      rw [hlive]
      exact List.append_nil _
  · rename_i hno
    exact ⟨⟨fun hrun => absurd hrun hno, fun hrun => absurd hrun hno,
      fun hrun => absurd hrun hno, h.stopped⟩, rfl⟩

end DelugeProcess

/-- The callback, if the timer is pending, returns before it looks at the page table. -/
def Harmless (e : Event) (s : Node) : Prop :=
  match e with
  | .rxTimer => s.rxTimer = false
  | .txTimer => s.txTimer = false ∨ s.currentTxPage < 0 ∨ s.txSet = 0
  | .summaryTimer => s.summaryTimer = false ∨ constK ≤ s.recvAdv ∨ s.pageCount = 0
  | .profileTimer =>
    s.profileTimer = false ∨ s.broadcastProfile = false ∨ constK ≤ s.recvAdv ∨ s.pageCount = 0
  | .receive _ _ | .rxExpires | .round => True

instance (e : Event) (s : Node) : Decidable (Harmless e s) :=
  match e with
  | .rxTimer => inferInstanceAs (Decidable (_ = _))
  | .txTimer => inferInstanceAs (Decidable (_ ∨ _ ∨ _))
  | .summaryTimer => inferInstanceAs (Decidable (_ ∨ _ ∨ _))
  | .profileTimer => inferInstanceAs (Decidable (_ ∨ _ ∨ _ ∨ _))
  | .receive _ _ | .rxExpires | .round => .isTrue trivial

/-- A callback that is not harmless begins with the page table. -/
theorem eventOps_ctimer (env : Env) {e : Event} (s : Node) (he : isCtimer e = true) :
    if Harmless e s then eventOps env e s = []
    else ∃ l, eventOps env e s = (Resource.table :: l).map .use := by
  match e with
  | .rxExpires => exact if_pos (show Harmless .rxExpires s from trivial) ▸ rfl
  | .rxTimer =>
    split
    · rename_i h
      have h : s.rxTimer = false := h
      simp only [eventOps, h, Bool.false_eq_true, if_false]
    · rename_i h
      have h : s.rxTimer = true := Bool.of_not_eq_false h
      exact ⟨[], if_pos h⟩
  | .txTimer =>
    split
    · rename_i h
      rcases h with h | h | h
      · simp only [eventOps, h, Bool.false_eq_true, if_false]
      · simp only [eventOps, txOps, Int.not_le.mpr h, false_and, if_false, ite_self]
      · simp only [eventOps, txOps, h, ne_eq, not_true, and_false, if_false, ite_self]
    · rename_i h
      obtain ⟨htimer, hpage, hset⟩ : ¬ s.txTimer = false ∧ ¬ s.currentTxPage < 0 ∧ ¬ s.txSet = 0 := by
        rw [← not_or, ← not_or]
        exact h
      refine ⟨[.file], ?_⟩
      show (if s.txTimer then txOps s else []) = _
      rw [if_pos (Bool.of_not_eq_false htimer), txOps, if_pos ⟨Int.not_lt.mp hpage, hset⟩]
      rfl
  | .summaryTimer =>
    split
    · rename_i h
      rcases h with h | h | h
      · simp only [eventOps, h, Bool.false_eq_true, if_false]
      · simp only [eventOps, summaryOps, h, if_true, ite_self]
      · simp only [eventOps, summaryOps, scanOps, h, Nat.lt_irrefl, if_false, ite_self]
    · rename_i h
      obtain ⟨htimer, hadv, hcount⟩ :
          ¬ s.summaryTimer = false ∧ ¬ constK ≤ s.recvAdv ∧ ¬ s.pageCount = 0 := by
        rw [← not_or, ← not_or]
        exact h
      refine ⟨[], ?_⟩
      show (if s.summaryTimer then summaryOps s else []) = _
      rw [if_pos (Bool.of_not_eq_false htimer), summaryOps, if_neg hadv, scanOps,
        if_pos (Nat.pos_of_ne_zero hcount)]
      rfl
  | .profileTimer =>
    split
    · rename_i h
      rcases h with h | h | h | h
      · simp only [eventOps, h, Bool.false_eq_true, if_false]
      · simp only [eventOps, profileOps, h, Bool.false_eq_true, false_and, if_false, ite_self]
      · simp only [eventOps, profileOps, Nat.not_lt.mpr h, and_false, if_false, ite_self]
      · simp only [eventOps, profileOps, scanOps, h, Nat.lt_irrefl, if_false, ite_self]
    · rename_i h
      obtain ⟨htimer, hold, hadv, hcount⟩ : ¬ s.profileTimer = false ∧
          ¬ s.broadcastProfile = false ∧ ¬ constK ≤ s.recvAdv ∧ ¬ s.pageCount = 0 := by
        rw [← not_or, ← not_or, ← not_or]
        exact h
      refine ⟨[], ?_⟩
      show (if s.profileTimer then profileOps s else []) = _
      rw [if_pos (Bool.of_not_eq_false htimer), profileOps,
        if_pos ⟨Bool.of_not_eq_false hold, Nat.lt_of_not_le hadv⟩, scanOps,
        if_pos (Nat.pos_of_ne_zero hcount)]
      rfl

namespace DelugeProcess

/-- A message that reaches the process has its payload, if it is taken in, copied within
    `current_page`. -/
def KeepsBuffer (a : Act) (g : DelugeProcess) : Prop :=
  match a with
  | .event _ e => g.running = true → g.node.object.InBuffer e
  | .disseminate _ _ _ | .stop => True

/-- No timer whose callback reaches the page table runs down while the process is stopped. -/
def TimerOk (a : Act) (g : DelugeProcess) : Prop :=
  match a with
  | .event _ e => g.running = true ∨ Harmless e g.node
  | .disseminate _ _ _ | .stop => True

instance (a : Act) (g : DelugeProcess) : Decidable (KeepsBuffer a g) :=
  match a with
  | .event _ _ => inferInstanceAs (Decidable (_ → _))
  | .disseminate _ _ _ | .stop => .isTrue trivial

instance (a : Act) (g : DelugeProcess) : Decidable (TimerOk a g) :=
  match a with
  | .event _ _ => inferInstanceAs (Decidable (_ ∨ _))
  | .disseminate _ _ _ | .stop => .isTrue trivial

/-- Both. -/
def SafeOk (a : Act) (g : DelugeProcess) : Prop := KeepsBuffer a g ∧ TimerOk a g

instance (a : Act) (g : DelugeProcess) : Decidable (SafeOk a g) :=
  inferInstanceAs (Decidable (_ ∧ _))

/-- A timer of a stopped process: it keeps the handles, and faults unless it is harmless. -/
theorem perform_ctimer {g : DelugeProcess} (h : g.Owns) (hstopped : g.running = false) (env : Env)
    {e : Event} (he : isCtimer e = true) :
    (perform (eventOps env e g.node) g).handles = g.handles ∧
      ((perform (eventOps env e g.node) g).faults = g.faults ↔ Harmless e g.node) := by
  have hops := eventOps_ctimer env g.node he
  split at hops
  · rename_i hharm
    rw [hops]
    exact ⟨rfl, iff_of_true (List.append_nil _) hharm⟩
  · rename_i hharm
    obtain ⟨l, hops⟩ := hops
    rw [hops]
    refine ⟨Lib.runOps_uses _ _, ?_⟩
    have hne : (runOps ((Resource.table :: l).map .use) g.handles).2 ≠ [] :=
      Lib.faults_use_ne_nil (h.stopped hstopped .table) _
    apply iff_of_false _ hharm
    intro heq
    exact hne (List.append_right_eq_self.mp heq)

/-- An event of a running process keeps the resources and does not fault. -/
theorem perform_running {g : DelugeProcess} (hlive : g.handles = allLive) (env : Env) (e : Event) :
    (perform (eventOps env e g.node) g).handles = allLive ∧
      (perform (eventOps env e g.node) g).faults = g.faults := by
  have hsettled : runOps (eventOps env e g.node) g.handles = (allLive, []) := by
    rw [hlive]
    exact settled_eventOps env e g.node
  constructor
  · show (runOps (eventOps env e g.node) g.handles).1 = allLive
    rw [hsettled]
  · show g.faults ++ (runOps (eventOps env e g.node) g.handles).2 = g.faults
    rw [hsettled, List.append_nil]

/-- An event that reaches the node always has an outcome within the buffer. -/
theorem next_event {g g' : DelugeProcess} {env : Env} {e : Event}
    (hin : KeepsBuffer (.event env e) g) (hst : Step (.event env e) g g') :
    if isCtimer e || g.running then
      ∃ s, Tx.step env e g.node = some s ∧
        g' = { perform (eventOps env e g.node) g with node := s }
    else g' = g := by
  split
  · rename_i hreach
    have hinbuf : g.node.object.InBuffer e := by
      match e with
      | .receive sender b => exact hin hreach
      | .rxExpires | .rxTimer | .txTimer | .summaryTimer | .profileTimer | .round =>
        intro p hp
        cases hp
    obtain ⟨s, hs⟩ := Tx.step_isSome hinbuf
    refine ⟨s, hs, hst _ ?_⟩
    rw [next, if_pos hreach, hs]
    rfl
  · rename_i hreach
    exact hst _ (if_neg hreach)

/-- What one step does: the resources stay owned, and it faults exactly when a timer reaches the page
    table of a stopped process. -/
theorem owns_step {a : Act} {g g' : DelugeProcess} (h : g.Owns) (hin : KeepsBuffer a g)
    (hst : Step a g g') : g'.Owns ∧ (g'.faults = g.faults ↔ TimerOk a g) := by
  match a with
  | .disseminate e f v =>
    rw [hst _ rfl]
    obtain ⟨howns, hfaults⟩ := owns_disseminate h e f v
    exact ⟨howns, iff_of_true hfaults trivial⟩
  | .stop =>
    rw [hst _ rfl]
    obtain ⟨howns, hfaults⟩ := owns_stop h
    exact ⟨howns, iff_of_true hfaults trivial⟩
  | .event env e =>
    have hnext := next_event hin hst
    split at hnext
    · rename_i hreach
      obtain ⟨s, hs, rfl⟩ := hnext
      have hkept := step_ofProcess hs
      have hfd : s.cfsFd = g.node.cfsFd := congrArg Prod.fst hkept
      have hid : s.nextObjectId = g.node.nextObjectId := congrArg Prod.snd hkept
      by_cases hrun : g.running = true
      · obtain ⟨hlive, hfaults⟩ := perform_running (h.live hrun) env e
        refine ⟨⟨fun _ => hlive, fun _ => ?_, fun _ => ?_, fun hno => ?_⟩,
          iff_of_true hfaults (.inl hrun)⟩
        · show 0 ≤ s.cfsFd
          rw [hfd]
          exact h.opened hrun
        · exact Nat.lt_of_lt_of_eq (h.busy hrun) hid.symm
        · exact absurd (hrun.symm.trans hno) (Bool.false_ne_true ∘ Eq.symm)
      · have hstopped := Bool.eq_false_iff.mpr hrun
        rw [hstopped, Bool.or_false] at hreach
        obtain ⟨hhandles, hfaults⟩ := perform_ctimer h hstopped env hreach
        refine ⟨⟨fun hr => absurd hr hrun, fun hr => absurd hr hrun, fun hr => absurd hr hrun,
          fun _ r => ?_⟩, hfaults.trans ?_⟩
        · show (perform (eventOps env e g.node) g).handles r ≠ .live
          rw [hhandles]
          exact h.stopped hstopped r
        · exact (or_iff_right hrun).symm
    · rename_i hreach
      obtain ⟨hno, _⟩ := Bool.or_eq_false_iff.mp (Bool.eq_false_iff.mpr hreach)
      rw [hnext]
      refine ⟨h, iff_of_true rfl (.inr ?_)⟩
      match e with
      | .receive _ _ | .round => trivial
      | .rxExpires | .rxTimer | .txTimer | .summaryTimer | .profileTimer => cases hno

theorem owns_zero : zero.Owns := by
  refine ⟨?_, ?_, ?_, ?_⟩
  · intro hrun
    cases hrun
  · intro hrun
    cases hrun
  · intro hrun
    cases hrun
  · exact fun _ _ => Handle.noConfusion

/-- **Stopping and restarting.** A run in which no timer reaches the page table of a stopped process has
    no fault: nothing uses the table or the descriptor after it was given back, and neither is given
    back twice. After such a run, the next step is without a fault exactly when it is of this kind. -/
theorem stopped_safe_iff {g : DelugeProcess} (h : Reach (· = zero) Step SafeOk g) :
    g.faults = [] ∧
      ∀ a g', KeepsBuffer a g → Step a g g' → (g'.faults = [] ↔ TimerOk a g) := by
  have hinv : g.Owns ∧ g.faults = [] := by
    refine h.invariant (I := fun g => g.Owns ∧ g.faults = []) ?_ ?_
    · rintro g rfl
      exact ⟨owns_zero, rfl⟩
    · intro a g g' hinv hok hst
      obtain ⟨howns, hiff⟩ := owns_step hinv.1 hok.1 hst
      exact ⟨howns, (hiff.mpr hok.2).trans hinv.2⟩
  obtain ⟨howns, hnone⟩ := hinv
  refine ⟨hnone, ?_⟩
  intro a g' hin hst
  rw [← (owns_step howns hin hst).2, hnone]

theorem next_step (a : Act) (g g' : DelugeProcess) (h : next a g = some g') : Step a g g' :=
  Lib.Havoc.of_eq h

theorem exists_of_run (ok : Act → DelugeProcess → Prop) [∀ a g, Decidable (ok a g)] (as : List Act)
    (p : DelugeProcess → Bool)
    (hp : (Lib.runList (Lib.guarded ok next) as zero).map p = some true) :
    ∃ g, Reach (· = zero) Step ok g ∧ p g = true :=
  Reach.exists_of_run ok next_step as p rfl hp

/-- A gateway is started, advertises, is stopped after its timers have run down, and is started
    again; then it is stopped with the timers pending. -/
theorem stopped_safe_restart :
    ∃ g : DelugeProcess, g.running = false ∧ g.node.summaryTimer = true ∧ g.faults = [] := by
  obtain ⟨g, hg, hp⟩ := exists_of_run SafeOk
    [.disseminate quietInit (zeroFile 256) 0, .event quietEnv .summaryTimer,
      .event quietEnv .profileTimer, .stop, .event quietEnv .summaryTimer,
      .disseminate quietInit (zeroFile 256) 1, .stop]
    (fun g => decide (g.running = false ∧ g.node.summaryTimer = true)) (by decide +kernel)
  obtain ⟨hstopped, htimer⟩ := of_decide_eq_true hp
  exact ⟨g, hstopped, htimer, (stopped_safe_iff hg).1⟩

/-- A gateway that is stopped in its first round reads the freed table when `summary_timer` runs
    down. -/
theorem stopped_not_safe :
    ∃ g : DelugeProcess, Reach (· = zero) Step Lib.Always g ∧ .use .table ∈ g.faults := by
  obtain ⟨g, hg, hp⟩ := exists_of_run Lib.Always
    [.disseminate quietInit (zeroFile 256) 0, .stop, .event quietEnv .summaryTimer]
    (fun g => decide (Op.use Resource.table ∈ g.faults)) (by decide +kernel)
  exact ⟨g, hg, of_decide_eq_true hp⟩

end DelugeProcess

end Adler.Deluge.Tx
