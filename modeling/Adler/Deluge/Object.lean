/-
  `current_object` seen as an abstract machine.

  * `Message`, `Packetbuf.message`: what `command_dispatcher` passes on, to which handler.
  * `Object`: page count, versions, the buffer of the current page, of each page record its packet
    set, complete flag and version, the page queued for sending, the file, and `update_state`.
    Time stamps, timers and the counters of the maintenance state are not part of it.
  * `Object.next`: what one event does to it. It is the same for the receiver and the gateway.
  * `Object.Change`: the same case by case, for the step lemmas of invariants.
-/
import Adler.Deluge.Node

namespace Adler.Deluge

open Lib (Mem firstFailing)
open Node

/-! ## What the dispatcher passes on -/

/-- A message handed to its handler. -/
inductive Message where
  | summary (m : DelugeMsgSummary)
  | request (m : DelugeMsgRequest)
  | packet (m : DelugeMsgPacket)
  | profile (m : DelugeMsgProfile)

/-- The message `command_dispatcher` finds in a packet buffer, if it calls a handler at all. -/
def Packetbuf.message (b : Packetbuf) : Option Message :=
  if b.len < 1 then none
  else if b.byte 0 = delugeCmdSummary then
    if sizeofSummary ≤ b.len then some (.summary (.ofBuf b)) else none
  else if b.byte 0 = delugeCmdRequest then
    if sizeofRequest ≤ b.len then some (.request (.ofBuf b)) else none
  else if b.byte 0 = delugeCmdPacket then
    if sizeofPacket ≤ b.len then some (.packet (.ofBuf b)) else none
  else if b.byte 0 = delugeCmdProfile then
    if profileLengthOk b then some (.profile (.ofBuf b)) else none
  else none

/-- The message an event delivers to a handler. -/
def Event.message : Event → Option Message
  | .receive _ b => b.message
  | _ => none

/-- `P` holds of the packet the event delivers, if it delivers one. -/
def Event.OnPacket (e : Event) (P : DelugeMsgPacket → Prop) : Prop :=
  ∀ p, e.message = some (.packet p) → P p

/-- `P` holds of the request the event delivers, if it delivers one. -/
def Event.OnRequest (e : Event) (P : DelugeMsgRequest → Prop) : Prop :=
  ∀ m, e.message = some (.request m) → P m

/-- `P` holds of the profile the event delivers, if it delivers one. -/
def Event.OnProfile (e : Event) (P : DelugeMsgProfile → Prop) : Prop :=
  ∀ m, e.message = some (.profile m) → P m

/-- The event delivers a summary of which `P` holds. -/
def Event.BringsSummary (e : Event) (P : DelugeMsgSummary → Prop) : Prop :=
  ∃ m, e.message = some (.summary m) ∧ P m

instance (e : Event) (P : DelugeMsgSummary → Prop) [DecidablePred P] : Decidable (e.BringsSummary P) :=
  match h : e.message with
  | some (.summary m) => decidable_of_iff (P m) (by simp [Event.BringsSummary, h])
  | some (.packet _) | some (.request _) | some (.profile _) | none =>
    .isFalse (by simp [Event.BringsSummary, h])

instance (e : Event) (P : DelugeMsgPacket → Prop) [DecidablePred P] : Decidable (e.OnPacket P) :=
  match h : e.message with
  | some (.packet p) => decidable_of_iff (P p) (by simp [Event.OnPacket, h])
  | some (.summary _) | some (.request _) | some (.profile _) | none =>
    .isTrue (by simp [Event.OnPacket, h])

instance (e : Event) (P : DelugeMsgRequest → Prop) [DecidablePred P] : Decidable (e.OnRequest P) :=
  match h : e.message with
  | some (.request m) => decidable_of_iff (P m) (by simp [Event.OnRequest, h])
  | some (.summary _) | some (.packet _) | some (.profile _) | none =>
    .isTrue (by simp [Event.OnRequest, h])

instance (e : Event) (P : DelugeMsgProfile → Prop) [DecidablePred P] : Decidable (e.OnProfile P) :=
  match h : e.message with
  | some (.profile m) => decidable_of_iff (P m) (by simp [Event.OnProfile, h])
  | some (.summary _) | some (.packet _) | some (.request _) | none =>
    .isTrue (by simp [Event.OnProfile, h])

/-- `command_dispatcher` by what it finds. -/
theorem commandDispatcherWith_eq
    (hs : Env → DelugeMsgSummary → RimeAddr → Node → Node)
    (hp : Env → DelugeMsgPacket → Node → Option Node) (env : Env) (sender : RimeAddr)
    (b : Packetbuf) (s : Node) :
    commandDispatcherWith hs hp env sender b s =
      match b.message with
      | some (.summary m) => some (hs env m sender s)
      | some (.request m) => some (handleRequest env m s)
      | some (.packet m) => hp env m s
      | some (.profile m) => some (handleProfile env m s)
      | none => some s := by
  unfold commandDispatcherWith Packetbuf.message
  by_cases h0 : b.len < 1
  · simp only [h0, if_true]
  · simp only [h0, if_false]
    split_ifs <;> rfl

theorem message_packet {b : Packetbuf} {m : DelugeMsgPacket}
    (h : b.message = some (.packet m)) : m = .ofBuf b ∧ b.byte 0 = 3 ∧ 72 ≤ b.len := by
  unfold Packetbuf.message at h
  split_ifs at h <;> simp_all

theorem message_profile {b : Packetbuf} {m : DelugeMsgProfile}
    (h : b.message = some (.profile m)) : m = .ofBuf b ∧ b.byte 0 = 4 ∧ profileLengthOk b := by
  unfold Packetbuf.message at h
  split_ifs at h <;> simp_all

/-- A delivered profile announces a page count that fits its byte. -/
theorem Event.npages_lt {e : Event} {m : DelugeMsgProfile} (h : e.message = some (.profile m)) :
    m.npages < 256 := by
  cases e with
  | receive sender b =>
    obtain ⟨rfl, _⟩ := message_profile h
    exact b.byte_lt 2
  | _ => cases h

/-- A delivered packet carries a payload of `S_PKT` bytes. -/
theorem Event.length_payload {e : Event} {m : DelugeMsgPacket}
    (h : e.message = some (.packet m)) : m.payload.length = sPkt := by
  cases e with
  | receive sender b =>
    obtain ⟨rfl, _⟩ := message_packet h
    simp [DelugeMsgPacket.ofBuf]
  | _ => cases h

/-! ## The object -/

/-- What the abstract machine keeps of a page record. -/
structure Mark where
  packetSet : Nat
  complete : Bool
  version : Nat
deriving DecidableEq

def Page.mark (p : Page) : Mark := ⟨p.packetSet, p.complete, p.version⟩

structure Object where
  pageCount : Nat
  entries : Nat
  version : Nat
  updateVersion : Nat
  currentRxPage : Nat
  currentPage : Mem
  marks : Nat → Mark
  currentTxPage : Int
  txSet : Nat
  file : File
  updateState : Bool

def Node.object (s : Node) : Object where
  pageCount := s.pageCount
  entries := s.entries
  version := s.version
  updateVersion := s.updateVersion
  currentRxPage := s.currentRxPage
  currentPage := s.currentPage
  marks := fun i => (s.pages i).mark
  currentTxPage := s.currentTxPage
  txSet := s.txSet
  file := s.file
  updateState := s.updateState

namespace Object

/-- Every page below the page count is complete. -/
def AllComplete (o : Object) : Prop := ∀ i, i < o.pageCount → (o.marks i).complete = true

/-- The index of the first page that is not complete. -/
def available (o : Object) : Nat := firstFailing (fun i => (o.marks i).complete) o.pageCount

theorem available_le (o : Object) : o.available ≤ o.pageCount := Lib.firstFailing_le _ _

theorem available_eq_iff {o : Object} : o.available = o.pageCount ↔ o.AllComplete :=
  Lib.firstFailing_eq_iff

/-- The packet is one that `handle_packet` takes in: it belongs to the current page, has that
    page's version, and the page is still missing. -/
def Wants (o : Object) (p : DelugeMsgPacket) : Prop :=
  p.pagenum = o.currentRxPage ∧ p.version = (o.marks o.currentRxPage).version ∧
    (o.marks o.currentRxPage).complete = false

instance (o : Object) (p : DelugeMsgPacket) : Decidable (o.Wants p) :=
  inferInstanceAs (Decidable (_ ∧ _ ∧ _))

/-- The packet set of the current page once the packet is in. -/
def setWith (o : Object) (p : DelugeMsgPacket) : Nat :=
  (o.marks o.currentRxPage).packetSet ||| 1 <<< p.packetnum

/-- The current page is complete with this packet. -/
def Completes (o : Object) (p : DelugeMsgPacket) : Prop :=
  o.Wants p ∧ p.CrcOk ∧ o.setWith p = allPackets

instance (o : Object) (p : DelugeMsgPacket) : Decidable (o.Completes p) :=
  inferInstanceAs (Decidable (_ ∧ _ ∧ _))

/-- The current page is the last one. -/
def AtLast (o : Object) : Prop := o.currentRxPage = (o.pageCount + 65535) % 65536

instance (o : Object) : Decidable o.AtLast := inferInstanceAs (Decidable (_ = _))

/-- `current_page` with the payload copied in. -/
def bufferWith (o : Object) (p : DelugeMsgPacket) : Mem :=
  Mem.copy o.currentPage (sPkt * p.packetnum) p.payload

/-- A packet with a wrong CRC: its payload is in the buffer, nothing else. -/
def spoil (p : DelugeMsgPacket) (o : Object) : Object := { o with currentPage := o.bufferWith p }

/-- A packet that leaves others missing. -/
def collect (p : DelugeMsgPacket) (o : Object) : Object :=
  { o with
    currentPage := o.bufferWith p
    marks := Function.update o.marks o.currentRxPage
      { o.marks o.currentRxPage with packetSet := o.setWith p } }

/-- The packet that completes the current page: the page is written. -/
def store (env : Env) (p : DelugeMsgPacket) (o : Object) : Object :=
  { o with
    currentPage := o.bufferWith p
    marks := Function.update o.marks o.currentRxPage ⟨o.setWith p, true, p.version⟩
    currentRxPage := (o.currentRxPage + 1) % 256
    file := (writeFile env o.currentRxPage (Mem.read (o.bufferWith p) 0 sPage) o.file).2 }

/-- What follows the last page. -/
def commit (o : Object) : Object := { o with version := o.updateVersion, updateState := true }

/-- What a packet does. -/
def receive (env : Env) (p : DelugeMsgPacket) (o : Object) : Object :=
  if o.Wants p then
    if p.CrcOk then
      if o.setWith p = allPackets then
        if o.AtLast then (o.store env p).commit else o.store env p
      else o.collect p
    else o.spoil p
  else o

/-- The request is one that `handle_request` answers. -/
def Answers (o : Object) (m : DelugeMsgRequest) : Prop :=
  m.pagenum < o.pageCount ∧ m.version = o.version ∧ m.pagenum ≤ o.available

instance (o : Object) (m : DelugeMsgRequest) : Decidable (o.Answers m) :=
  inferInstanceAs (Decidable (_ ∧ _ ∧ _))

/-- What a request does that is answered. -/
def queue (m : DelugeMsgRequest) (o : Object) : Object :=
  { o with
    txSet := if (m.pagenum : Int) = o.currentTxPage then o.txSet ||| m.requestSet
      else m.requestSet
    currentTxPage := if (m.pagenum : Int) = o.currentTxPage then o.currentTxPage
      else toInt8 m.pagenum }

/-- The record of page `i` after a profile, `block` being what the new table held before. -/
def announcedMark (o : Object) (m : DelugeMsgProfile) (block : Nat → Mark) (i : Nat) : Mark :=
  if i < min m.npages o.pageCount then
    if m.versionVector i > (o.marks i).version then ⟨0, false, m.versionVector i⟩ else o.marks i
  else if i < m.npages then ⟨0, false, 0⟩
  else if i < o.pageCount then o.marks i
  else block i

/-- What a profile of a newer version does when there is memory for the new table. -/
def announce (m : DelugeMsgProfile) (block : Nat → Mark) (o : Object) : Object :=
  { o with
    pageCount := m.npages
    entries := m.npages
    updateVersion := m.version
    currentRxPage := firstFailing (fun i => (o.announcedMark m block i).complete) m.npages % 256
    marks := o.announcedMark m block
    txSet := 0 }

/-- What it does when there is none: `size` is set all the same. -/
def resize (m : DelugeMsgProfile) (o : Object) : Object :=
  { o with pageCount := m.npages, txSet := 0 }

/-- What a profile does. -/
def update (env : Env) (m : DelugeMsgProfile) (o : Object) : Object :=
  if m.version ≤ o.updateVersion then o
  else match env.heap with
    | none => o.resize m
    | some block => o.announce m fun i => (block i).mark

/-- `tx_callback` has something to send. -/
def Queued (o : Object) : Prop := 0 ≤ o.currentTxPage ∧ o.txSet ≠ 0

instance (o : Object) : Decidable o.Queued := inferInstanceAs (Decidable (_ ∧ _))

/-- The queued page is sent; reading it moves the end of the file. -/
def serve (env : Env) (o : Object) : Object :=
  { o with
    txSet := 0
    currentTxPage := -1
    file := (readFile env o.currentTxPage.toNat env.stack o.file).2.2 }

/-- What a message does. -/
def handle (env : Env) (o : Object) : Message → Object
  | .summary _ => o
  | .request m => if o.Answers m then o.queue m else o
  | .packet p => o.receive env p
  | .profile m => o.update env m

/-- What an event does; `pending` says whether the `tx_timer` is. -/
def next (env : Env) (e : Event) (pending : Bool) (o : Object) : Object :=
  match e with
  | .receive _ b => match b.message with
    | some m => o.handle env m
    | none => o
  | .txTimer => if pending = true ∧ o.Queued then o.serve env else o
  | _ => o

/-- What an event can do to the object, case by case. -/
inductive Change (env : Env) (e : Event) (pending : Bool) (o : Object) : Object → Prop
  | same : Change env e pending o o
  | queue {m : DelugeMsgRequest} : e.message = some (.request m) → o.Answers m →
      Change env e pending o (o.queue m)
  | spoil {p : DelugeMsgPacket} : e.message = some (.packet p) → o.Wants p → ¬ p.CrcOk →
      Change env e pending o (o.spoil p)
  | collect {p : DelugeMsgPacket} : e.message = some (.packet p) → o.Wants p → p.CrcOk →
      o.setWith p ≠ allPackets → Change env e pending o (o.collect p)
  | store {p : DelugeMsgPacket} : e.message = some (.packet p) → o.Completes p → ¬ o.AtLast →
      Change env e pending o (o.store env p)
  | commit {p : DelugeMsgPacket} : e.message = some (.packet p) → o.Completes p → o.AtLast →
      Change env e pending o (o.store env p).commit
  | announce {m : DelugeMsgProfile} {block : Nat → Page} : e.message = some (.profile m) →
      o.updateVersion < m.version → env.heap = some block →
      Change env e pending o (o.announce m fun i => (block i).mark)
  | resize {m : DelugeMsgProfile} : e.message = some (.profile m) → o.updateVersion < m.version →
      env.heap = none → Change env e pending o (o.resize m)
  | serve : e = .txTimer → pending = true → o.Queued → Change env e pending o (o.serve env)

/-- The payload of a packet that is taken in is copied within `current_page`. -/
def InBuffer (o : Object) (e : Event) : Prop := e.OnPacket fun p => o.Wants p → p.packetnum < nPkt

instance (o : Object) (e : Event) : Decidable (o.InBuffer e) :=
  inferInstanceAs (Decidable (e.OnPacket _))

theorem next_change (env : Env) (e : Event) (pending : Bool) (o : Object) :
    Change env e pending o (o.next env e pending) := by
  cases e with
  | receive sender b =>
    have hmsg : (Event.receive sender b).message = b.message := rfl
    dsimp only [next]
    generalize b.message = msg at hmsg
    cases msg with
    | none => exact .same
    | some m =>
      cases m with
      | summary m => exact .same
      | request m =>
        dsimp only [handle]
        split
        · exact .queue hmsg ‹_›
        · exact .same
      | packet p =>
        dsimp only [handle, receive]
        split_ifs with hw hcrc hset hlast
        · exact .commit hmsg ⟨hw, hcrc, hset⟩ hlast
        · exact .store hmsg ⟨hw, hcrc, hset⟩ hlast
        · exact .collect hmsg hw hcrc hset
        · exact .spoil hmsg hw hcrc
        · exact .same
      | profile m =>
        dsimp only [handle, update]
        split
        · exact .same
        · rename_i hv
          cases hheap : env.heap with
          | none => exact .resize hmsg (Nat.lt_of_not_le hv) hheap
          | some block => exact .announce hmsg (Nat.lt_of_not_le hv) hheap
  | txTimer =>
    dsimp only [next]
    split
    · rename_i h
      exact .serve rfl h.1 h.2
    · exact .same
  | _ => exact .same

/-! What `next` is for each kind of message. -/

section

variable {env : Env} {e : Event} {pending : Bool} {o : Object}

theorem next_none (hm : e.message = none) :
    o.next env e pending = o ∨ o.next env e pending = o.serve env := by
  cases e with
  | receive sender b =>
    have hm : b.message = none := hm
    simp only [next, hm, true_or]
  | txTimer =>
    dsimp only [next]
    split
    · exact .inr rfl
    · exact .inl rfl
  | _ => exact .inl rfl

theorem next_some {m : Message} (hm : e.message = some m) :
    o.next env e pending = o.handle env m := by
  cases e with
  | receive sender b =>
    have hm : b.message = some m := hm
    simp only [next, hm]
  | _ => cases hm

theorem next_summary {m : DelugeMsgSummary} (hm : e.message = some (.summary m)) :
    o.next env e pending = o := next_some hm

theorem next_completes {p : DelugeMsgPacket} (hm : e.message = some (.packet p))
    (hc : o.Completes p) :
    o.next env e pending = if o.AtLast then (o.store env p).commit else o.store env p := by
  simp only [next_some hm, handle, receive, if_pos hc.1, if_pos hc.2.1, if_pos hc.2.2]

theorem next_announce {m : DelugeMsgProfile} {block : Nat → Page}
    (hm : e.message = some (.profile m)) (hv : o.updateVersion < m.version)
    (hheap : env.heap = some block) :
    o.next env e pending = o.announce m fun i => (block i).mark := by
  simp only [next_some hm, handle, update, if_neg (Nat.not_le.mpr hv), hheap]

end

end Object

end Adler.Deluge
