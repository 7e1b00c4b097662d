/-
  `csma.c` over `qsend_list` of `contikimac.c` and `phase.c`: packets queued for each neighbour, sent in
  bursts, sent again after a while, and dropped in the end.

  A burst goes through the list of packets with a pointer to the next one while `packet_sent` takes the
  packets off that list, and a transmission that waits for the receiver to wake up keeps pointers to the
  neighbour and to the packet.

  * `csma_run`: over any run, no pointer to a packet or a neighbour that was freed is followed; every
    packet that was given to `send_packet` is queued or its callback was called, never both and never
    twice; the blocks of the three memories that are in use are those of the queues; and a neighbour
    with packets has its timer running unless a transmission to it waits.

  Lists are plain lists, with the blocks of their items; the times of the timers are those they are set
  to. What the radio does to a packet is what comes back from it.
-/
import Adler.Lib.Keyed
import Adler.Kernel.Memb
import Adler.Net.Packetbuf
import Mathlib.Data.Fintype.Basic

namespace Adler.Net

open Lib Lib.Keyed Kernel Packetbuf

variable {n : ℕ}

/-- `MAC_TX_*` -/
inductive Status
  | ok | collision | noack | deferred | err | errFatal
  deriving DecidableEq

/-- A call of `mac_call_sent_callback`. -/
structure Callback where
  sent : ℕ
  cptr : ℕ
  status : Status
  numTx : ℕ

/-- `struct rdc_buf_list` with its `struct qbuf_metadata`, and the blocks they are in. -/
structure Queued (n : ℕ) where
  block : ℕ
  metadata : ℕ
  buf : Queuebuf n
  sent : ℕ
  cptr : ℕ
  maxTransmissions : UInt8

/-- `struct neighbor_queue`, and the block it is in. -/
structure Neighbor (n : ℕ) where
  block : ℕ
  addr : Rimeaddr n
  transmitTimer : Option ℕ
  transmissions : UInt8
  collisions : UInt8
  deferrals : UInt8
  queue : List (Queued n)

structure Csma (n : ℕ) where
  neighborList : List (Neighbor n)
  neighborMemb : Memb
  packetMemb : Memb
  metadataMemb : Memb
  seqno : UInt16

@[simp] abbrev maxNeighborQueues : ℕ := 2

@[simp] abbrev maxMacTransmissions : UInt8 := 3

@[simp] abbrev packetTypeAck : UInt16 := 1

/-- `init`, with `QUEUEBUF_NUM` packets. -/
def Csma.init (n num : ℕ) : Csma n where
  neighborList := []
  neighborMemb := membInit maxNeighborQueues
  packetMemb := membInit num
  metadataMemb := membInit num
  seqno := 0

namespace Csma

/-- The neighbour in its block. -/
def put (s : Csma n) (nb : Neighbor n) : Csma n :=
  { s with neighborList := s.neighborList.map fun x => if x.block = nb.block then nb else x }

/-- `list_remove(neighbor_list, n)`, `memb_free(&neighbor_memb, n)` -/
def removeNeighbor (s : Csma n) (block : ℕ) : Csma n :=
  { s with
    neighborList := s.neighborList.filter (·.block ≠ block)
    neighborMemb := (membFree s.neighborMemb block).2 }

/-- `memb_free` of a packet and its metadata. -/
def freeBlocks (s : Csma n) (block metadata : ℕ) : Csma n :=
  { s with
    metadataMemb := (membFree s.metadataMemb metadata).2
    packetMemb := (membFree s.packetMemb block).2 }

/-- `neighbor_queue_from_addr` -/
def neighborQueueFromAddr (s : Csma n) (addr : Rimeaddr n) : Option (Neighbor n) :=
  s.neighborList.find? (·.addr = addr)

/-- The neighbour a packet is for, if need be a new one. -/
def neighborFor (s : Csma n) (addr : Rimeaddr n) : Option (Neighbor n) × Csma n :=
  match s.neighborQueueFromAddr addr with
  | some nb => (some nb, s)
  | none =>
    match membAlloc s.neighborMemb with
    | none => (none, s)
    | some (block, memb) =>
      let nb : Neighbor n :=
        { block := block, addr := addr, transmitTimer := none, transmissions := 0, collisions := 0,
          deferrals := 0, queue := [] }
      (some nb, { s with neighborMemb := memb, neighborList := s.neighborList ++ [nb] })

/-- The blocks for a packet and its metadata; `queuebuf` is whether there is a queue buffer, which other
modules need too. -/
def allocPacket (s : Csma n) (queuebuf : Bool) : Option (ℕ × ℕ) × Csma n :=
  match membAlloc s.packetMemb with
  | none => (none, s)
  | some (block, memb) =>
    let s := { s with packetMemb := memb }
    match membAlloc s.metadataMemb with
    | none => (none, { s with packetMemb := (membFree s.packetMemb block).2 })
    | some (metadata, memb) =>
      let s := { s with metadataMemb := memb }
      if queuebuf then (some (block, metadata), s) else (none, s.freeBlocks block metadata)

/-- `send_packet` -/
def sendPacket (s : Csma n) (sent cptr : ℕ) (b : Packetbuf n) (queuebuf : Bool) :
    List Callback × Csma n :=
  let seqno := if s.seqno = 0 then s.seqno + 1 else s.seqno
  let b := b.setAttr .macSeqno seqno
  let dropped : List Callback := [⟨sent, cptr, .err, 1⟩]
  match { s with seqno := seqno + 1 }.neighborFor (b.addrs .receiver) with
  | (none, s) => (dropped, s)
  | (some nb, s) =>
    match s.allocPacket queuebuf with
    | (none, s) => (dropped, if nb.queue.length = 0 then s.removeNeighbor nb.block else s)
    | (some (block, metadata), s) =>
      let q : Queued n :=
        { block := block, metadata := metadata, buf := b.toQueuebuf, sent := sent, cptr := cptr
          maxTransmissions := if b.attrs .maxMacTransmissions = 0 then maxMacTransmissions
            else (b.attrs .maxMacTransmissions).toUInt8 }
      let queue := if b.attrs .packetType = packetTypeAck then q :: nb.queue else nb.queue ++ [q]
      ([], s.put { nb with
        queue := queue
        transmitTimer := if queue.head?.map (·.block) = some block then some 0
          else nb.transmitTimer })

/-- `free_packet`; `timebase` is `default_timebase()`. -/
def freePacket (s : Csma n) (timebase : ℕ) (nb : Neighbor n) (q : Queued n) : Csma n :=
  let queue := nb.queue.filter (·.block ≠ q.block)
  let s := s.freeBlocks q.block q.metadata
  if queue ≠ [] then
    s.put { nb with
      queue := queue, transmissions := 0, collisions := 0, deferrals := 0
      transmitTimer := some timebase }
  else s.removeNeighbor nb.block

/-- The counters of a neighbour after a transmission. -/
def count (nb : Neighbor n) : Status → Neighbor n
  | .ok | .noack => { nb with transmissions := nb.transmissions + 1 }
  | .collision => { nb with collisions := nb.collisions + 1 }
  | .deferred => { nb with deferrals := nb.deferrals + 1 }
  | .err | .errFatal => nb

/-- How long a packet waits until it is sent again; `rand` is what `random_rand` returns. -/
def backoff (timebase : ℕ) (rand : UInt16) (transmissions : UInt8) : ℕ :=
  timebase + rand.toNat % (min (transmissions.toNat + 1) 3 * timebase)

/-- `packet_sent`, when `b` is in the packet buffer. -/
def packetSent (s : Csma n) (timebase : ℕ) (rand : UInt16) (nb : Neighbor n) (status : Status)
    (b : Packetbuf n) : List Callback × Csma n :=
  let nb := count nb status
  match nb.queue.find? fun q => q.buf.attrs .macSeqno = b.attrs .macSeqno with
  | none => ([], s.put nb)
  | some q =>
    if (status = .collision ∨ status = .noack) ∧ nb.transmissions < q.maxTransmissions then
      ([], s.put { nb with
        transmitTimer := some (backoff timebase rand nb.transmissions)
        queue := nb.queue.map fun x =>
          if x.block = q.block then { x with buf := { x.buf with attrs := b.attrs, addrs := b.addrs } }
          else x })
    else
      ([⟨q.sent, q.cptr, status, nb.transmissions.toNat⟩], s.freePacket timebase nb q)

end Csma

/-! ## The layer below -/

/-- The queues, the packet a burst comes to next, and the transmissions that wait for a neighbour to
wake up, each with its neighbour. -/
structure World (n : ℕ) where
  csma : Csma n
  burst : Option (ℕ × ℕ)
  deferred : List (ℕ × ℕ)

/-- What came of a transmission: the status, what is left in the packet buffer, and what `random_rand`
returns then. -/
structure Outcome (n : ℕ) where
  status : Status
  left : Packetbuf n
  rand : UInt16

inductive Event (n : ℕ)
  /-- `send_packet` is called -/
  | send (sent cptr : ℕ) (b : Packetbuf n) (queuebuf : Bool)
  /-- the transmit timer of a neighbour goes off -/
  | fire (block : ℕ) (o : Outcome n)
  /-- a transmission that waited is taken up -/
  | resume (p : ℕ × ℕ) (o : Outcome n)
  /-- a burst goes on -/
  | next (o : Outcome n)

/-- The neighbour and the packet two pointers lead to; nothing when one of them was freed. -/
def Csma.follow (s : Csma n) (p : ℕ × ℕ) : Option (Neighbor n × Queued n) :=
  match s.neighborList.find? (·.block = p.1) with
  | none => none
  | some nb => (nb.queue.find? (·.block = p.2)).map (nb, ·)

/-- `list_item_next` of a packet. -/
def itemNext (block : ℕ) : List (Queued n) → Option (Queued n)
  | [] => none
  | q :: qs => if q.block = block then qs.head? else itemNext block qs

/-- The loop of `qsend_list` once around. -/
def World.transmit (timebase : ℕ) (w : World n) (p : ℕ × ℕ) (o : Outcome n) :
    Option (List Callback × World n) :=
  match w.csma.follow p with
  | none => none
  | some (nb, _) =>
    let next := itemNext p.2 nb.queue
    if o.status = .deferred then some ([], { w with burst := none, deferred := p :: w.deferred })
    else
      let (calls, s) := w.csma.packetSent timebase o.rand nb o.status o.left
      some (calls, { w with
        csma := s
        burst := if o.status = .ok then next.map fun q => (p.1, q.block) else none })

/-- A step, and the callbacks; nothing when a pointer is followed to what was freed. -/
def World.step (timebase : ℕ) (w : World n) : Event n → Option (List Callback × World n)
  | .send sent cptr b queuebuf =>
    let (calls, s) := w.csma.sendPacket sent cptr b queuebuf
    some (calls, { w with csma := s })
  | .fire block o =>
    match w.csma.neighborList.find? (·.block = block) with
    | none => none
    | some nb =>
      let w := { w with csma := w.csma.put { nb with transmitTimer := none } }
      match nb.queue.head? with
      | none => some ([], w)
      | some q => w.transmit timebase (block, q.block) o
  | .resume p o => { w with deferred := w.deferred.erase p }.transmit timebase p o
  | .next o =>
    match w.burst with
    | none => some ([], w)
    | some p => w.transmit timebase p o

/-- What the radio leaves in the buffer still has the sequence number and the receiver of the packet. -/
def Outcome.Of (o : Outcome n) (q : Queued n) : Prop :=
  o.left.attrs .macSeqno = q.buf.attrs .macSeqno ∧ o.left.addrs .receiver = q.buf.addrs .receiver

/-- When an event can happen: a timer goes off when it is running, and while no burst is going on; only
the first transmission of a burst waits. No acknowledgement is sent to a neighbour while a transmission
to it waits. -/
def World.Allows (w : World n) : Event n → Prop
  | .send _ _ b _ => b.attrs .packetType = packetTypeAck →
      ∀ nb ∈ w.csma.neighborList, nb.addr = b.addrs .receiver → nb.block ∉ w.deferred.map Prod.fst
  | .fire block o => w.burst = none ∧ ∃ nb ∈ w.csma.neighborList, nb.block = block ∧
      nb.transmitTimer ≠ none ∧ ∀ q, nb.queue.head? = some q → o.Of q
  | .resume p o => w.burst = none ∧ p ∈ w.deferred ∧
      ∀ nb q, w.csma.follow p = some (nb, q) → o.Of q
  | .next o => ∃ p, w.burst = some p ∧ o.status ≠ .deferred ∧
      ∀ nb q, w.csma.follow p = some (nb, q) → o.Of q

/-! ## The queues -/

/-- The packets of all queues. -/
def Csma.queued (s : Csma n) : List (Queued n) := s.neighborList.flatMap (·.queue)

/-- Both pointers lead to something. -/
def Csma.Points (s : Csma n) (p : ℕ × ℕ) : Prop :=
  ∃ nb ∈ s.neighborList, nb.block = p.1 ∧ p.2 ∈ nb.queue.map (·.block)

/-- A neighbour has packets, which are for it, and its timer runs unless its block is in `idle`. -/
structure NeighborOk (idle : List ℕ) (nb : Neighbor n) : Prop where
  queue : nb.queue ≠ []
  receiver : ∀ q ∈ nb.queue, q.buf.addrs .receiver = nb.addr
  timer : nb.transmitTimer = none ↔ nb.block ∈ idle

/-- The blocks that are in use are those of the lists, no neighbour is listed twice, and every one is
well. -/
structure CsmaOk (s : Csma n) (idle : List ℕ) : Prop where
  neighbors : s.neighborMemb.Holds (s.neighborList.map (·.block))
  packets : s.packetMemb.Holds (s.queued.map (·.block))
  metadata : s.metadataMemb.Holds (s.queued.map (·.metadata))
  addrs : (s.neighborList.map (·.addr)).Nodup
  each : ∀ nb ∈ s.neighborList, NeighborOk idle nb
  idle : ∀ b ∈ idle, b ∈ s.neighborList.map (·.block)

/-- Who is told about a packet. -/
def Queued.tag (q : Queued n) : ℕ × ℕ := (q.sent, q.cptr)

def Callback.tag (c : Callback) : ℕ × ℕ := (c.sent, c.cptr)

/-- Blocks for a packet, or none, and then all is as before. -/
theorem allocPacket_spec {s : Csma n} {us ms : List ℕ} (hp : s.packetMemb.Holds us)
    (hm : s.metadataMemb.Holds ms) (queuebuf : Bool) :
    ∃ s', s'.neighborList = s.neighborList ∧ s'.neighborMemb = s.neighborMemb ∧
      (s.allocPacket queuebuf = (none, s') ∧ s'.packetMemb.Holds us ∧ s'.metadataMemb.Holds ms ∨
        ∃ block metadata, s.allocPacket queuebuf = (some (block, metadata), s') ∧
          s'.packetMemb.Holds (block :: us) ∧ s'.metadataMemb.Holds (metadata :: ms)) := by
  unfold Csma.allocPacket
  rcases alloc_holds hp with ⟨hnone, -⟩ | ⟨block, memb, hsome, -, -, hholds⟩
  · rw [hnone]
    exact ⟨s, rfl, rfl, .inl ⟨rfl, hp, hm⟩⟩
  rw [hsome]
  dsimp only
  rcases alloc_holds hm with ⟨hnone', -⟩ | ⟨metadata, memb', hsome', -, -, hholds'⟩
  · rw [hnone']
    exact ⟨{ s with packetMemb := (membFree memb block).2 }, rfl, rfl,
      .inl ⟨rfl, (free_holds hholds).2.2, hm⟩⟩
  rw [hsome']
  dsimp only
  obtain ⟨s', hs'⟩ : ∃ s' : Csma n, { s with packetMemb := memb, metadataMemb := memb' } = s' := ⟨_, rfl⟩
  rw [hs']
  cases queuebuf with
  | false =>
    exact ⟨s'.freeBlocks block metadata, hs' ▸ rfl, hs' ▸ rfl,
      .inl ⟨rfl, hs' ▸ (free_holds hholds).2.2, hs' ▸ (free_holds hholds').2.2⟩⟩
  | true =>
    exact ⟨s', hs' ▸ rfl, hs' ▸ rfl, .inr ⟨block, metadata, rfl, hs' ▸ hholds, hs' ▸ hholds'⟩⟩

/-- The neighbour for a packet, listed between `pre` and `post` in `s'`: one that `s` has, or a new one
behind them. -/
structure Chosen (s s' : Csma n) (idle : List ℕ) (pre : List (Neighbor n)) (nb : Neighbor n)
    (post : List (Neighbor n)) : Prop where
  place : At (·.block) s'.neighborList pre nb post
  packets : s'.packetMemb = s.packetMemb
  metadata : s'.metadataMemb = s.metadataMemb
  neighbors : s'.neighborMemb.Holds (s'.neighborList.map (·.block))
  addrs : (s'.neighborList.map (·.addr)).Nodup
  kind : nb ∈ s.neighborList ∧ s' = s ∨
    nb.queue = [] ∧ nb.transmitTimer = none ∧ nb.block ∉ idle ∧ s.neighborList = pre ++ post

theorem neighborFor_spec {s : Csma n} {idle : List ℕ} (h : CsmaOk s idle) (addr : Rimeaddr n) :
    s.neighborFor addr = (none, s) ∨
      ∃ nb s' pre post, s.neighborFor addr = (some nb, s') ∧ nb.addr = addr ∧
        Chosen s s' idle pre nb post := by
  unfold Csma.neighborFor
  cases hfind : s.neighborQueueFromAddr addr with
  | some nb =>
    have hmem := List.mem_of_find?_eq_some hfind
    have haddr : nb.addr = addr := by simpa using List.find?_some hfind
    obtain ⟨pre, post, hat⟩ := at_of_mem h.neighbors.1 hmem
    exact .inr ⟨nb, s, pre, post, rfl, haddr, hat, rfl, rfl, h.neighbors, h.addrs, .inl ⟨hmem, rfl⟩⟩
  | none =>
    rcases alloc_holds h.neighbors with ⟨hnone, -⟩ | ⟨block, memb, hsome, hnew, -, hholds⟩
    · rw [hnone]
      exact .inl rfl
    · rw [hsome]
      refine .inr ⟨_, _, s.neighborList, [], rfl, rfl, ⟨rfl, fun y hy he => ?_, fun y hy => ?_⟩, rfl, rfl,
        ?_, ?_, .inr ⟨rfl, rfl, fun hi => hnew (h.idle _ hi), (List.append_nil _).symm⟩⟩
      · have he : y.block = block := he
        exact hnew (he ▸ List.mem_map_of_mem hy)
      · exact absurd hy List.not_mem_nil
      · refine hholds.perm ?_
        rw [List.map_append]
        exact List.perm_append_singleton .. |>.symm
      · rw [List.map_append, List.map_singleton]
        refine List.nodup_append.mpr ⟨h.addrs, List.nodup_singleton _, fun a ha a' ha' => ?_⟩
        obtain rfl := List.mem_singleton.mp ha'
        obtain ⟨x, hx, rfl⟩ := List.mem_map.mp ha
        exact fun he => List.find?_eq_none.mp hfind x hx (by simpa using he)

theorem queued_perm {s : Csma n} {nb : Neighbor n} {pre post : List (Neighbor n)}
    (hat : At (·.block) s.neighborList pre nb post) :
    s.queued.Perm (nb.queue ++ (pre ++ post).flatMap (·.queue)) := by
  rw [Csma.queued, hat.eq, List.flatMap_append, List.flatMap_append, List.flatMap_cons]
  exact List.perm_append_comm_assoc ..

section

variable {s s' : Csma n} {idle : List ℕ} {pre post : List (Neighbor n)} {nb : Neighbor n}

theorem Chosen.mem (hc : Chosen s s' idle pre nb post) {x : Neighbor n} (hx : x ∈ s.neighborList) :
    x = nb ∨ x ∈ pre ++ post := by
  rcases hc.kind with ⟨-, hs⟩ | ⟨-, -, -, hlist⟩
  · exact or_iff_not_imp_left.mpr fun hne => hc.place.mem_of_ne (hs ▸ hx) hne
  · exact .inr (hlist ▸ hx)

theorem Chosen.each (hc : Chosen s s' idle pre nb post) (h : CsmaOk s idle) :
    ∀ x ∈ pre ++ post, NeighborOk idle x := by
  intro x hx
  rcases hc.kind with ⟨-, hs⟩ | ⟨-, -, -, hlist⟩
  · exact h.each x (hs ▸ hc.place.mem hx)
  · exact h.each x (hlist ▸ hx)

theorem Chosen.idle_mem (hc : Chosen s s' idle pre nb post) (h : CsmaOk s idle) :
    ∀ b ∈ idle, b ∈ s'.neighborList.map (·.block) := by
  intro b hb
  obtain ⟨x, hx, rfl⟩ := List.mem_map.mp (h.idle b hb)
  rcases hc.mem hx with rfl | hx
  · exact List.mem_map_of_mem (hc.place.eq ▸ List.mem_append_right _ (List.mem_cons_self ..))
  · exact List.mem_map_of_mem (hc.place.mem hx)

/-- The packets that were queued before. -/
theorem Chosen.queued (hc : Chosen s s' idle pre nb post) :
    s.queued.Perm (nb.queue ++ (pre ++ post).flatMap (·.queue)) := by
  rcases hc.kind with ⟨-, hs⟩ | ⟨hempty, -, -, hlist⟩
  · exact hs ▸ queued_perm hc.place
  · rw [Csma.queued, hlist, hempty]
    exact .refl _

end

theorem put_neighborList {s : Csma n} {pre post : List (Neighbor n)} {nb nb' : Neighbor n}
    (hat : At (·.block) s.neighborList pre nb post) (hb : nb'.block = nb.block) :
    (s.put nb').neighborList = pre ++ nb' :: post := by
  have := hat.map fun _ => nb'
  rwa [← hb] at this

theorem queued_put {s : Csma n} {pre post : List (Neighbor n)} {nb nb' : Neighbor n}
    (hat : At (·.block) s.neighborList pre nb post) (hb : nb'.block = nb.block) :
    (s.put nb').queued.Perm (nb'.queue ++ (pre ++ post).flatMap (·.queue)) := by
  rw [Csma.queued, put_neighborList hat hb, List.flatMap_append, List.flatMap_append, List.flatMap_cons]
  exact List.perm_append_comm_assoc ..

theorem mem_put {s : Csma n} {pre post : List (Neighbor n)} {nb nb' : Neighbor n}
    (hat : At (·.block) s.neighborList pre nb post) (hb : nb'.block = nb.block) :
    nb' ∈ (s.put nb').neighborList := by
  rw [put_neighborList hat hb]
  exact List.mem_append_right _ (List.mem_cons_self ..)

/-- A neighbour that is well again, and whose packets are in the blocks that are in use. -/
theorem put_ok {s : Csma n} {idle : List ℕ} {pre post : List (Neighbor n)} {nb nb' : Neighbor n}
    (hat : At (·.block) s.neighborList pre nb post) (hb : nb'.block = nb.block)
    (ha : nb'.addr = nb.addr) (hn : s.neighborMemb.Holds (s.neighborList.map (·.block)))
    (haddrs : (s.neighborList.map (·.addr)).Nodup)
    (hp : s.packetMemb.Holds ((nb'.queue ++ (pre ++ post).flatMap (·.queue)).map (·.block)))
    (hm : s.metadataMemb.Holds ((nb'.queue ++ (pre ++ post).flatMap (·.queue)).map (·.metadata)))
    (heach : ∀ x ∈ pre ++ post, NeighborOk idle x) (hnb : NeighborOk idle nb')
    (hidle : ∀ b ∈ idle, b ∈ s.neighborList.map (·.block)) : CsmaOk (s.put nb') idle := by
  have hlist := put_neighborList hat hb
  have hblocks : (s.put nb').neighborList.map (·.block) = s.neighborList.map (·.block) := by
    rw [hlist, hat.eq, List.map_append, List.map_append, List.map_cons, List.map_cons, hb]
  have hperm := (queued_put hat hb).symm
  refine ⟨?_, hp.perm (hperm.map _), hm.perm (hperm.map _), ?_, fun x hx => ?_, fun b hb => ?_⟩
  · rw [hblocks]
    exact hn
  · rw [hlist, List.map_append, List.map_cons, ha, ← List.map_cons, ← List.map_append, ← hat.eq]
    exact haddrs
  · rw [hlist] at hx
    rcases List.mem_append.mp hx with hx | hx
    · exact heach x (List.mem_append_left _ hx)
    · rcases List.mem_cons.mp hx with rfl | hx
      · exact hnb
      · exact heach x (List.mem_append_right _ hx)
  · rw [hblocks]
    exact hidle b hb

/-- The packets of the neighbour stay where they are. -/
theorem requeue_ok {s : Csma n} {idle idle' : List ℕ} (h : CsmaOk s idle)
    {pre post : List (Neighbor n)} {nb nb' : Neighbor n} (hat : At (·.block) s.neighborList pre nb post)
    (hb : nb'.block = nb.block) (ha : nb'.addr = nb.addr)
    (hblock : nb'.queue.map (·.block) = nb.queue.map (·.block))
    (hmeta : nb'.queue.map (·.metadata) = nb.queue.map (·.metadata))
    (heach : ∀ x ∈ pre ++ post, NeighborOk idle' x) (hnb : NeighborOk idle' nb')
    (hidle : ∀ b ∈ idle', b ∈ s.neighborList.map (·.block)) : CsmaOk (s.put nb') idle' := by
  have hperm := queued_perm hat
  refine put_ok hat hb ha h.neighbors h.addrs ?_ ?_ heach hnb hidle
  · rw [List.map_append, hblock, ← List.map_append]
    exact h.packets.perm (hperm.map _)
  · rw [List.map_append, hmeta, ← List.map_append]
    exact h.metadata.perm (hperm.map _)

/-- A neighbour that is gone. -/
theorem remove_ok {s : Csma n} {idle : List ℕ} {pre post : List (Neighbor n)} {nb : Neighbor n}
    (hat : At (·.block) s.neighborList pre nb post)
    (hn : s.neighborMemb.Holds (s.neighborList.map (·.block)))
    (haddrs : (s.neighborList.map (·.addr)).Nodup)
    (hp : s.packetMemb.Holds (((pre ++ post).flatMap (·.queue)).map (·.block)))
    (hm : s.metadataMemb.Holds (((pre ++ post).flatMap (·.queue)).map (·.metadata)))
    (heach : ∀ x ∈ pre ++ post, NeighborOk idle x)
    (hidle : ∀ b ∈ idle, b ∈ (pre ++ post).map (·.block)) : CsmaOk (s.removeNeighbor nb.block) idle := by
  have hlist : (s.removeNeighbor nb.block).neighborList = pre ++ post := hat.filter
  have hperm : (s.neighborList.map (·.block)).Perm (nb.block :: (pre ++ post).map (·.block)) := by
    rw [hat.eq, ← List.map_cons]
    exact List.perm_middle.map _
  have hsub : (pre ++ post).Sublist s.neighborList := by
    rw [hat.eq]
    exact (List.sublist_cons_self nb post).append_left pre
  refine ⟨?_, ?_, ?_, ?_, ?_, ?_⟩
  · rw [hlist]
    exact (free_holds (hn.perm hperm)).2.2
  · rw [Csma.queued, hlist]
    exact hp
  · rw [Csma.queued, hlist]
    exact hm
  · rw [hlist]
    exact haddrs.sublist (hsub.map _)
  · rw [hlist]
    exact heach
  · rw [hlist]
    exact hidle

section

variable {s s₁ s₂ : Csma n} {idle : List ℕ} {pre post : List (Neighbor n)} {nb : Neighbor n}

/-- Without blocks for the packet the neighbours are as before: a new one is removed again. -/
theorem dropped_ok (h : CsmaOk s idle) (hc : Chosen s s₁ idle pre nb post)
    (hlist : s₂.neighborList = s₁.neighborList) (hmemb : s₂.neighborMemb = s₁.neighborMemb)
    (hp : s₂.packetMemb.Holds (s.queued.map (·.block)))
    (hm : s₂.metadataMemb.Holds (s.queued.map (·.metadata))) :
    let t := if nb.queue.length = 0 then s₂.removeNeighbor nb.block else s₂
    CsmaOk t idle ∧ t.neighborList = s.neighborList := by
  dsimp only
  have hat : At (·.block) s₂.neighborList pre nb post :=
    ⟨hlist.trans hc.place.eq, hc.place.pre, hc.place.post⟩
  have hneighbors : s₂.neighborMemb.Holds (s₂.neighborList.map (·.block)) := by
    rw [hmemb, hlist]
    exact hc.neighbors
  have haddrs : (s₂.neighborList.map (·.addr)).Nodup := hlist ▸ hc.addrs
  rcases hc.kind with ⟨hin, hs⟩ | ⟨hempty, -, -, hold⟩
  · have hlen : ¬ nb.queue.length = 0 := fun h0 =>
      (h.each nb hin).queue (List.length_eq_zero_iff.mp h0)
    have hsame : s₂.neighborList = s.neighborList := hs ▸ hlist
    have hqueued : s₂.queued = s.queued := congrArg (List.flatMap _) hsame
    rw [if_neg hlen]
    exact ⟨⟨hneighbors, hqueued ▸ hp, hqueued ▸ hm, haddrs, hsame ▸ h.each, hsame ▸ h.idle⟩, hsame⟩
  · have hqueued : s.queued = (pre ++ post).flatMap (·.queue) := congrArg (List.flatMap _) hold
    rw [if_pos (List.length_eq_zero_iff.mpr hempty)]
    exact ⟨remove_ok hat hneighbors haddrs (hqueued ▸ hp) (hqueued ▸ hm) (hc.each h) (hold ▸ h.idle),
      hat.filter.trans hold.symm⟩

/-- The neighbour of a packet, with the packet in its queue: its timer is set when the packet is the
first one, else it runs unless a transmission waits. -/
theorem enqueued_neighborOk (h : CsmaOk s idle) (hc : Chosen s s₁ idle pre nb post) {q : Queued n}
    (ack : Prop) [Decidable ack] (hack : ack → nb ∈ s.neighborList → nb.block ∉ idle)
    (hq : q.buf.addrs .receiver = nb.addr) (hnew : q.block ∉ s.queued.map (·.block))
    {queue : List (Queued n)} (hqueue : (if ack then q :: nb.queue else nb.queue ++ [q]) = queue)
    (hperm : queue.Perm (q :: nb.queue)) :
    NeighborOk idle { nb with
      queue := queue
      transmitTimer := if queue.head?.map (·.block) = some q.block then some 0
        else nb.transmitTimer } := by
  refine ⟨fun hnil => ?_, fun x hx => ?_, ?_⟩
  · have hlen := hperm.length_eq
    rw [show queue = [] from hnil] at hlen
    exact absurd hlen.symm (Nat.succ_ne_zero _)
  · rcases List.mem_cons.mp (hperm.mem_iff.mp hx) with rfl | hx
    · exact hq
    · rcases hc.kind with ⟨hin, -⟩ | ⟨hempty, -⟩
      · exact (h.each nb hin).receiver x hx
      · rw [hempty] at hx
        exact absurd hx List.not_mem_nil
  · dsimp only
    by_cases hfirst : queue.head?.map (·.block) = some q.block
    · rw [if_pos hfirst]
      refine iff_of_false (Option.some_ne_none _) ?_
      rcases hc.kind with ⟨hin, -⟩ | ⟨-, -, hidle, -⟩
      · by_cases htype : ack
        · exact hack htype hin
        · -- the first packet is an old one, and its block is not the new packet's
          exfalso
          obtain ⟨x, xs, hx⟩ := List.exists_cons_of_ne_nil (h.each nb hin).queue
          rw [← hqueue, if_neg htype, hx] at hfirst
          have hxb : x.block = q.block := by simpa using hfirst
          have hold : x.block ∈ s.queued.map (·.block) :=
            List.mem_map_of_mem (List.mem_flatMap.mpr ⟨nb, hin, hx ▸ List.mem_cons_self ..⟩)
          exact hnew (hxb ▸ hold)
      · exact hidle
    · rw [if_neg hfirst]
      rcases hc.kind with ⟨hin, -⟩ | ⟨hempty, -⟩
      · exact (h.each nb hin).timer
      · refine absurd ?_ hfirst
        rw [← hqueue, hempty]
        split <;> rfl

/-- One packet more in the queue of its neighbour. -/
theorem enqueue_ok (h : CsmaOk s idle) (hc : Chosen s s₁ idle pre nb post)
    (hlist : s₂.neighborList = s₁.neighborList) (hmemb : s₂.neighborMemb = s₁.neighborMemb)
    {q : Queued n} (hp : s₂.packetMemb.Holds (q.block :: s.queued.map (·.block)))
    (hm : s₂.metadataMemb.Holds (q.metadata :: s.queued.map (·.metadata))) {nb' : Neighbor n}
    (hnb : NeighborOk idle nb') (hb : nb'.block = nb.block) (ha : nb'.addr = nb.addr)
    (hq : nb'.queue.Perm (q :: nb.queue)) :
    CsmaOk (s₂.put nb') idle ∧ (∀ p, s.Points p → (s₂.put nb').Points p) ∧
      (s₂.put nb').queued.Perm (q :: s.queued) := by
  have hat : At (·.block) s₂.neighborList pre nb post :=
    ⟨hlist.trans hc.place.eq, hc.place.pre, hc.place.post⟩
  have hput := put_neighborList hat hb
  have hperm : (nb'.queue ++ (pre ++ post).flatMap (·.queue)).Perm (q :: s.queued) :=
    (hq.append_right _).trans (hc.queued.symm.cons q)
  refine ⟨put_ok hat hb ha ?_ ?_ (hp.perm (hperm.symm.map _)) (hm.perm (hperm.symm.map _)) (hc.each h)
    hnb ?_, fun p hpt => ?_, ?_⟩
  · rw [hmemb, hlist]
    exact hc.neighbors
  · rw [hlist]
    exact hc.addrs
  · rw [hlist]
    exact hc.idle_mem h
  · -- the neighbour has the packets it had
    obtain ⟨x, hx, hxb, hxq⟩ := hpt
    unfold Csma.Points
    rw [hput]
    rcases hc.mem hx with rfl | hx
    · exact ⟨nb', List.mem_append_right _ (List.mem_cons_self ..), hb.trans hxb,
        (hq.map _).mem_iff.mpr (List.mem_cons_of_mem _ hxq)⟩
    · exact ⟨x, mem_middle nb' hx, hxb, hxq⟩
  · exact (queued_put hat hb).trans hperm

end

/-- A packet is queued, or its callback is called. -/
theorem sendPacket_spec {s : Csma n} {idle : List ℕ} (h : CsmaOk s idle) (sent cptr : ℕ)
    {b : Packetbuf n} (queuebuf : Bool)
    (hack : b.attrs .packetType = packetTypeAck →
      ∀ nb ∈ s.neighborList, nb.addr = b.addrs .receiver → nb.block ∉ idle) :
    CsmaOk (s.sendPacket sent cptr b queuebuf).2 idle ∧
      (∀ p, s.Points p → (s.sendPacket sent cptr b queuebuf).2.Points p) ∧
      ((s.sendPacket sent cptr b queuebuf).1.map Callback.tag ++
        (s.sendPacket sent cptr b queuebuf).2.queued.map Queued.tag).Perm
          ((sent, cptr) :: s.queued.map Queued.tag) := by
  unfold Csma.sendPacket
  dsimp only
  obtain ⟨seqno, hseqno⟩ : ∃ seqno, (if s.seqno = 0 then s.seqno + 1 else s.seqno) = seqno := ⟨_, rfl⟩
  rw [hseqno]
  have ht : CsmaOk { s with seqno := seqno + 1 } idle :=
    ⟨h.neighbors, h.packets, h.metadata, h.addrs, h.each, h.idle⟩
  rcases neighborFor_spec ht ((b.setAttr .macSeqno seqno).addrs .receiver) with hnone |
    ⟨nb, s₁, pre, post, hsome, haddr, hc⟩
  · rw [hnone]
    exact ⟨ht, fun p hp => hp, .refl _⟩
  rw [hsome]
  dsimp only
  obtain ⟨s₂, hlist, hmemb, ⟨hfail, hp, hm⟩ | ⟨block, metadata, hok, hp, hm⟩⟩ :=
    allocPacket_spec (hc.packets ▸ h.packets) (hc.metadata ▸ h.metadata) queuebuf
  · rw [hfail]
    obtain ⟨hdropped, hsame⟩ := dropped_ok ht hc hlist hmemb hp hm
    dsimp only at hdropped hsame ⊢
    refine ⟨hdropped, fun p hpt => ?_, ?_⟩
    · unfold Csma.Points
      rw [hsame]
      exact hpt
    · rw [Csma.queued, hsame]
      exact .refl _
  · rw [hok]
    dsimp only
    obtain ⟨q, hq⟩ : ∃ q : Queued n,
      { block := block, metadata := metadata, buf := (b.setAttr .macSeqno seqno).toQueuebuf, sent := sent,
        cptr := cptr,
        maxTransmissions := if (b.setAttr .macSeqno seqno).attrs .maxMacTransmissions = 0 then
          maxMacTransmissions else ((b.setAttr .macSeqno seqno).attrs .maxMacTransmissions).toUInt8 } =
        q := ⟨_, rfl⟩
    obtain ⟨rfl, rfl, htag, hreceiver⟩ : q.block = block ∧ q.metadata = metadata ∧
      q.tag = (sent, cptr) ∧ q.buf.addrs .receiver = nb.addr := hq ▸ ⟨rfl, rfl, rfl, haddr.symm⟩
    rw [hq]
    obtain ⟨queue, hqueue⟩ : ∃ queue, (if (b.setAttr .macSeqno seqno).attrs .packetType = packetTypeAck
      then q :: nb.queue else nb.queue ++ [q]) = queue := ⟨_, rfl⟩
    rw [hqueue]
    have hperm : queue.Perm (q :: nb.queue) := by
      rw [← hqueue]
      split
      · exact .refl _
      · exact List.perm_append_singleton ..
    have hnb := enqueued_neighborOk ht hc _ (fun htype hin => hack htype nb hin haddr) hreceiver
      (List.nodup_cons.mp hp.1).1 hqueue hperm
    obtain ⟨hput, hpoints, hqueued⟩ := enqueue_ok ht hc hlist hmemb hp hm hnb rfl rfl hperm
    refine ⟨hput, hpoints, ?_⟩
    rw [List.map_nil, List.nil_append, ← htag, ← List.map_cons]
    exact hqueued.map _

/-! ## After a transmission -/

theorem count_frame (nb : Neighbor n) (status : Status) :
    (Csma.count nb status).block = nb.block ∧ (Csma.count nb status).addr = nb.addr ∧
      (Csma.count nb status).queue = nb.queue := by
  cases status <;> exact ⟨rfl, rfl, rfl⟩

theorem itemNext_some {block : ℕ} {qs : List (Queued n)} {q' : Queued n}
    (h : itemNext block qs = some q') : ∃ pre q post, qs = pre ++ q :: q' :: post ∧ q.block = block := by
  induction qs with
  | nil => cases h
  | cons q qs ih =>
    unfold itemNext at h
    split at h
    · rename_i hb
      obtain ⟨post, rfl⟩ := List.head?_eq_some_iff.mp h
      exact ⟨[], q, post, rfl, hb⟩
    · obtain ⟨pre, x, post, rfl, hb⟩ := ih h
      exact ⟨q :: pre, x, post, rfl, hb⟩

/-- The packet that `packet_sent` finds by its sequence number is not the next one of the burst. -/
theorem find_not_next {qs : List (Queued n)} (hnodup : (qs.map (·.block)).Nodup) {q : Queued n}
    (hq : q ∈ qs) {P : Queued n → Bool} (hP : P q = true) :
    ∃ x ∈ qs, qs.find? P = some x ∧
      ∀ q', itemNext q.block qs = some q' → q' ∈ qs ∧ q'.block ≠ x.block := by
  obtain ⟨x, hx⟩ := Option.isSome_iff_exists.mp (List.find?_isSome.mpr ⟨q, hq, hP⟩)
  refine ⟨x, List.mem_of_find?_eq_some hx, hx, fun q' hnext => ?_⟩
  obtain ⟨pre, y, post, rfl, hb⟩ := itemNext_some hnext
  obtain rfl : y = q := List.inj_on_of_nodup_map hnodup (by simp) hq hb
  have hmem : x ∈ pre ++ [y] := by
    obtain ⟨z, hz⟩ := Option.isSome_iff_exists.mp
      (List.find?_isSome.mpr ⟨y, List.mem_append_right pre (List.mem_singleton.mpr rfl), hP⟩)
    rw [List.append_cons, List.find?_append, hz] at hx
    exact Option.some.inj hx ▸ List.mem_of_find?_eq_some hz
  refine ⟨by simp, fun he => ?_⟩
  rw [List.append_cons, List.map_append, List.nodup_append] at hnodup
  exact hnodup.2.2 _ (List.mem_map_of_mem hmem) _ (List.mem_map_of_mem (List.mem_cons_self ..)) he.symm

/-- What a step of a neighbour leaves as it is: the others. -/
theorem others_ok {s : Csma n} {idle idle' : List ℕ} (h : CsmaOk s idle) {nb : Neighbor n}
    {pre post : List (Neighbor n)} (hat : At (·.block) s.neighborList pre nb post)
    (hidle : ∀ b ≠ nb.block, b ∈ idle ↔ b ∈ idle') (hnb : nb.block ∉ idle') :
    (∀ x ∈ pre ++ post, NeighborOk idle' x) ∧ ∀ b ∈ idle', b ∈ (pre ++ post).map (·.block) := by
  constructor
  · intro x hx
    obtain ⟨hqueue, hreceiver, htimer⟩ := h.each x (hat.mem hx)
    exact ⟨hqueue, hreceiver, htimer.trans (hidle _ (hat.ne hx))⟩
  · intro b hb
    have hne : b ≠ nb.block := fun he => hnb (he ▸ hb)
    obtain ⟨x, hx, rfl⟩ := List.mem_map.mp (h.idle b ((hidle b hne).mpr hb))
    exact List.mem_map_of_mem (hat.mem_of_ne hx fun he => hne (congrArg _ he))

theorem queue_nodup {s : Csma n} {idle : List ℕ} (h : CsmaOk s idle) {nb : Neighbor n}
    (hnb : nb ∈ s.neighborList) : (nb.queue.map (·.block)).Nodup := by
  obtain ⟨pre, post, hat⟩ := at_of_mem h.neighbors.1 hnb
  have hnodup := ((queued_perm hat).map (·.block)).nodup_iff.mp h.packets.1
  rw [List.map_append, List.nodup_append] at hnodup
  exact hnodup.1

/-- Pointers to another neighbour still lead to something. -/
theorem points_of_other {s s' : Csma n} {nb : Neighbor n} {pre post : List (Neighbor n)}
    (hat : At (·.block) s.neighborList pre nb post) (hsub : ∀ x ∈ pre ++ post, x ∈ s'.neighborList)
    {p : ℕ × ℕ} (hne : p.1 ≠ nb.block) (hp : s.Points p) : s'.Points p := by
  obtain ⟨x, hx, hxb, hxq⟩ := hp
  exact ⟨x, hsub x (hat.mem_of_ne hx fun he => hne (he ▸ hxb.symm)), hxb, hxq⟩

/-- A packet is freed, and the neighbour with its last one. -/
theorem freePacket_spec {s : Csma n} {idle idle' : List ℕ} (h : CsmaOk s idle) {nb nb' : Neighbor n}
    (hnb : nb ∈ s.neighborList) (hb : nb'.block = nb.block) (ha : nb'.addr = nb.addr)
    (hq : nb'.queue = nb.queue) (hidle : ∀ b ≠ nb.block, b ∈ idle ↔ b ∈ idle')
    (hnot : nb.block ∉ idle') {q : Queued n} (hmem : q ∈ nb.queue) (timebase : ℕ) :
    CsmaOk (s.freePacket timebase nb' q) idle' ∧
      (∀ p, p.1 ≠ nb.block → s.Points p → (s.freePacket timebase nb' q).Points p) ∧
      (∀ x ∈ nb.queue, x.block ≠ q.block →
        (s.freePacket timebase nb' q).Points (nb.block, x.block)) ∧
      s.queued.Perm (q :: (s.freePacket timebase nb' q).queued) := by
  obtain ⟨pre, post, hat⟩ := at_of_mem h.neighbors.1 hnb
  obtain ⟨heach, hidle'⟩ := others_ok h hat hidle hnot
  have hperm := queued_perm hat
  have hblocks := queue_nodup h hnb
  obtain ⟨pre', post', hat'⟩ := at_of_mem hblocks hmem
  have hqueue : nb'.queue.filter (·.block ≠ q.block) = pre' ++ post' := by
    rw [hq]
    exact hat'.filter
  have hperm' : s.queued.Perm (q :: ((pre' ++ post') ++ (pre ++ post).flatMap (·.queue))) := by
    refine hperm.trans ?_
    rw [hat'.eq]
    exact List.perm_middle.append_right _
  have hp : (s.freeBlocks q.block q.metadata).packetMemb.Holds
      (((pre' ++ post') ++ (pre ++ post).flatMap (·.queue)).map (·.block)) :=
    (free_holds (h.packets.perm (hperm'.map _))).2.2
  have hm : (s.freeBlocks q.block q.metadata).metadataMemb.Holds
      (((pre' ++ post') ++ (pre ++ post).flatMap (·.queue)).map (·.metadata)) :=
    (free_holds (h.metadata.perm (hperm'.map _))).2.2
  have hsub : ∀ x ∈ nb.queue, x.block ≠ q.block → x ∈ pre' ++ post' := fun x hx hne =>
    hat'.mem_of_ne hx fun he => hne (congrArg _ he)
  have hatf : At (·.block) (s.freeBlocks q.block q.metadata).neighborList pre nb post :=
    ⟨hat.eq, hat.pre, hat.post⟩
  unfold Csma.freePacket
  dsimp only
  rw [hqueue]
  by_cases hlast : pre' ++ post' = []
  · rw [if_neg (not_not_intro hlast), hb]
    rw [hlast, List.nil_append] at hp hm hperm'
    have hlist : ((s.freeBlocks q.block q.metadata).removeNeighbor nb.block).neighborList = pre ++ post :=
      hatf.filter
    refine ⟨remove_ok hatf h.neighbors h.addrs hp hm heach hidle', fun p hne => ?_, fun x hx hne => ?_, ?_⟩
    · exact points_of_other hat (fun x hx => hlist ▸ hx) hne
    · have := hsub x hx hne
      rw [hlast] at this
      exact absurd this List.not_mem_nil
    · rwa [show ((s.freeBlocks q.block q.metadata).removeNeighbor nb.block).queued =
        (pre ++ post).flatMap (·.queue) from congrArg (List.flatMap _) hlist]
  · rw [if_pos hlast]
    obtain ⟨nb'', hnb''⟩ : ∃ nb'' : Neighbor n, { nb' with
      queue := pre' ++ post', transmissions := 0, collisions := 0, deferrals := 0
      transmitTimer := some timebase } = nb'' := ⟨_, rfl⟩
    have hb'' : nb''.block = nb.block := hnb'' ▸ hb
    have ha'' : nb''.addr = nb.addr := hnb'' ▸ ha
    have hq'' : nb''.queue = pre' ++ post' := hnb'' ▸ rfl
    have ht'' : nb''.transmitTimer = some timebase := hnb'' ▸ rfl
    rw [hnb'']
    have hlist := put_neighborList hatf hb''
    have hok : NeighborOk idle' nb'' := by
      refine ⟨hq'' ▸ hlast, fun x hx => ?_, ?_⟩
      · rw [ha'']
        exact (h.each nb hnb).receiver x (hat'.mem (hq'' ▸ hx))
      · rw [ht'', hb'']
        exact iff_of_false (Option.some_ne_none _) hnot
    refine ⟨put_ok hatf hb'' ha'' h.neighbors h.addrs (hq'' ▸ hp) (hq'' ▸ hm) heach hok fun b hb => ?_,
      fun p hne => ?_, fun x hx hne => ?_, ?_⟩
    · obtain ⟨x, hx, rfl⟩ := List.mem_map.mp (hidle' b hb)
      exact List.mem_map_of_mem (hatf.mem hx)
    · exact points_of_other hat (fun x hx => hlist ▸ mem_middle nb'' hx) hne
    · refine ⟨nb'', mem_put hatf hb'', hb'', ?_⟩
      rw [hq'']
      exact List.mem_map_of_mem (hsub x hx hne)
    · exact hperm'.trans (.cons q (hq'' ▸ (queued_put hatf hb'').symm))

/-- The packet a transmission was of is kept to be sent again, or it is freed and its callback is
called. -/
theorem packetSent_spec {s : Csma n} {idle idle' : List ℕ} (h : CsmaOk s idle) {nb : Neighbor n}
    (hnb : nb ∈ s.neighborList) (hidle : ∀ b ≠ nb.block, b ∈ idle ↔ b ∈ idle') (hnot : nb.block ∉ idle')
    {q : Queued n} (hq : q ∈ nb.queue) {o : Outcome n} (ho : o.Of q) (timebase : ℕ) :
    CsmaOk (s.packetSent timebase o.rand nb o.status o.left).2 idle' ∧
      (∀ p, p.1 ≠ nb.block → s.Points p →
        (s.packetSent timebase o.rand nb o.status o.left).2.Points p) ∧
      (o.status = .ok → ∀ q', itemNext q.block nb.queue = some q' →
        (s.packetSent timebase o.rand nb o.status o.left).2.Points (nb.block, q'.block)) ∧
      ((s.packetSent timebase o.rand nb o.status o.left).1.map Callback.tag ++
        (s.packetSent timebase o.rand nb o.status o.left).2.queued.map Queued.tag).Perm
          (s.queued.map Queued.tag) := by
  obtain ⟨hb, ha, hqueue⟩ := count_frame nb o.status
  obtain ⟨pre, post, hat⟩ := at_of_mem h.neighbors.1 hnb
  have hperm := queued_perm hat
  have hblocks := queue_nodup h hnb
  obtain ⟨x, hx, hfind, hnext⟩ := find_not_next hblocks hq
    (P := fun q => q.buf.attrs .macSeqno = o.left.attrs .macSeqno) (decide_eq_true ho.1.symm)
  unfold Csma.packetSent
  dsimp only
  rw [hqueue, hfind]
  dsimp only
  split
  · rename_i hagain
    obtain ⟨heach, hidle'⟩ := others_ok h hat hidle hnot
    obtain ⟨queue, hmap⟩ : ∃ queue, (nb.queue.map fun y => if y.block = x.block then
      { y with buf := { y.buf with attrs := o.left.attrs, addrs := o.left.addrs } } else y) = queue :=
        ⟨_, rfl⟩
    -- only the attributes of the packet change
    let f : Queued n → Queued n := fun y =>
      { y with buf := { y.buf with attrs := o.left.attrs, addrs := o.left.addrs } }
    have hblock : queue.map (·.block) = nb.queue.map (·.block) :=
      hmap ▸ map_map_if (·.block) f (fun _ => rfl) _ _
    have hmeta : queue.map (·.metadata) = nb.queue.map (·.metadata) :=
      hmap ▸ map_map_if (·.metadata) f (fun _ => rfl) _ _
    have htag : queue.map Queued.tag = nb.queue.map Queued.tag :=
      hmap ▸ map_map_if Queued.tag f (fun _ => rfl) _ _
    obtain ⟨nb', hnb'⟩ : ∃ nb' : Neighbor n, { Csma.count nb o.status with
      transmitTimer := some (Csma.backoff timebase o.rand (Csma.count nb o.status).transmissions)
      queue := queue } = nb' := ⟨_, rfl⟩
    have hb' : nb'.block = nb.block := hnb' ▸ hb
    have ha' : nb'.addr = nb.addr := hnb' ▸ ha
    have hq' : nb'.queue = queue := hnb' ▸ rfl
    have ht' : nb'.transmitTimer ≠ none := hnb' ▸ Option.some_ne_none _
    rw [hmap, hnb']
    have hlist := put_neighborList hat hb'
    have hok : NeighborOk idle' nb' := by
      refine ⟨fun hnil => ?_, fun y hy => ?_, ?_⟩
      · rw [hq', ← hmap, List.map_eq_nil_iff] at hnil
        rw [hnil] at hq
        exact absurd hq List.not_mem_nil
      · rw [ha']
        rw [hq', ← hmap] at hy
        obtain ⟨z, hz, rfl⟩ := List.mem_map.mp hy
        split
        · exact ho.2.trans ((h.each nb hnb).receiver q hq)
        · exact (h.each nb hnb).receiver z hz
      · rw [hb']
        exact iff_of_false ht' hnot
    refine ⟨requeue_ok h hat hb' ha' (hq' ▸ hblock) (hq' ▸ hmeta) heach hok fun b hb => ?_,
      fun p hne => ?_, fun hok => ?_, ?_⟩
    · obtain ⟨y, hy, rfl⟩ := List.mem_map.mp (hidle' b hb)
      exact List.mem_map_of_mem (hat.mem hy)
    · exact points_of_other hat (fun y hy => hlist ▸ mem_middle nb' hy) hne
    · rw [hok] at hagain
      rcases hagain.1 with hcol | hack
      · cases hcol
      · cases hack
    · refine ((queued_put hat hb').map Queued.tag).trans (.trans ?_ (hperm.symm.map Queued.tag))
      rw [hq', List.map_append, htag, ← List.map_append]
  · obtain ⟨hok, hothers, hpoints, hfreed⟩ :=
      freePacket_spec h hnb hb ha hqueue hidle hnot hx timebase
    refine ⟨hok, hothers, fun _ q' hq' => ?_, (hfreed.map Queued.tag).symm⟩
    obtain ⟨hmem, hne⟩ := hnext q' hq'
    exact hpoints q' hmem hne

/-- The transmit timer of a neighbour has gone off. -/
theorem stopped_ok {s : Csma n} {idle : List ℕ} (h : CsmaOk s idle) {nb nb' : Neighbor n}
    (hnb : nb ∈ s.neighborList) (hnb' : { nb with transmitTimer := none } = nb') :
    CsmaOk (s.put nb') (nb.block :: idle) ∧ nb' ∈ (s.put nb').neighborList ∧
      (s.put nb').queued = s.queued ∧ ∀ p, s.Points p → (s.put nb').Points p := by
  obtain ⟨pre, post, hat⟩ := at_of_mem h.neighbors.1 hnb
  have hb : nb'.block = nb.block := hnb' ▸ rfl
  have ha : nb'.addr = nb.addr := hnb' ▸ rfl
  have hq : nb'.queue = nb.queue := hnb' ▸ rfl
  have hlist := put_neighborList hat hb
  have heach : ∀ x ∈ pre ++ post, NeighborOk (nb.block :: idle) x := fun x hx => by
    obtain ⟨hqueue, hreceiver, htimer⟩ := h.each x (hat.mem hx)
    refine ⟨hqueue, hreceiver, htimer.trans ?_⟩
    rw [List.mem_cons, or_iff_right (hat.ne hx)]
  have hwell : NeighborOk (nb.block :: idle) nb' := by
    refine ⟨hq ▸ (h.each nb hnb).queue, fun x hx => ha ▸ (h.each nb hnb).receiver x (hq ▸ hx), ?_⟩
    rw [hb, ← hnb']
    exact iff_of_true rfl (List.mem_cons_self ..)
  refine ⟨requeue_ok h hat hb ha (hq ▸ rfl) (hq ▸ rfl) heach hwell fun b hb => ?_, mem_put hat hb, ?_,
    fun p hp => ?_⟩
  · rcases List.mem_cons.mp hb with rfl | hb
    · exact List.mem_map_of_mem hnb
    · exact h.idle b hb
  · rw [Csma.queued, hlist, Csma.queued, hat.eq, List.flatMap_append, List.flatMap_append,
      List.flatMap_cons, List.flatMap_cons, hq]
  · obtain ⟨x, hx, hxb, hxq⟩ := hp
    by_cases hxn : x = nb
    · exact ⟨nb', mem_put hat hb, hb.trans (hxn ▸ hxb), hq ▸ hxn ▸ hxq⟩
    · exact ⟨x, hlist ▸ mem_middle nb' (hat.mem_of_ne hx hxn), hxb, hxq⟩

/-! ## Runs -/

/-- The queues are well, the transmissions that wait are to different neighbours, and every pointer
leads to a packet and a neighbour. -/
structure WorldOk (w : World n) : Prop where
  csma : CsmaOk w.csma (w.deferred.map Prod.fst)
  waiting : (w.deferred.map Prod.fst).Nodup
  deferred : ∀ p ∈ w.deferred, w.csma.Points p
  burst : ∀ p, w.burst = some p → w.csma.Points p ∧ p.1 ∉ w.deferred.map Prod.fst

theorem follow_eq {s : Csma n} {idle : List ℕ} (h : CsmaOk s idle) {nb : Neighbor n}
    (hnb : nb ∈ s.neighborList) {q : Queued n} (hq : q ∈ nb.queue) :
    s.follow (nb.block, q.block) = some (nb, q) := by
  obtain ⟨pre, post, hat⟩ := at_of_mem h.neighbors.1 hnb
  obtain ⟨pre', post', hat'⟩ := at_of_mem (queue_nodup h hnb) hq
  unfold Csma.follow
  rw [hat.find]
  dsimp only
  rw [hat'.find]
  rfl

/-- A transmission: it waits, or it is done with. -/
theorem transmit_spec {w : World n} {idle : List ℕ} {p : ℕ × ℕ} (h : CsmaOk w.csma idle)
    (hidle : ∀ b ≠ p.1, b ∈ idle ↔ b ∈ w.deferred.map Prod.fst)
    (hwaiting : (w.deferred.map Prod.fst).Nodup) (hdeferred : ∀ p ∈ w.deferred, w.csma.Points p)
    (hp : w.csma.Points p) (hnot : p.1 ∉ w.deferred.map Prod.fst) {o : Outcome n}
    (hdef : o.status = .deferred → p.1 ∈ idle)
    (ho : ∀ nb q, w.csma.follow p = some (nb, q) → o.Of q) (timebase : ℕ) :
    ∃ calls w', w.transmit timebase p o = some (calls, w') ∧ WorldOk w' ∧
      (calls.map Callback.tag ++ w'.csma.queued.map Queued.tag).Perm (w.csma.queued.map Queued.tag) := by
  have hpoints := hp
  obtain ⟨nb, hnb, hb, hmem⟩ := hp
  obtain ⟨q, hq, hqb⟩ := List.mem_map.mp hmem
  have hpb : p = (nb.block, q.block) := Prod.ext hb.symm hqb.symm
  have hfollow : w.csma.follow p = some (nb, q) := hpb ▸ follow_eq h hnb hq
  unfold World.transmit
  rw [hfollow]
  dsimp only
  by_cases hstatus : o.status = .deferred
  · rw [if_pos hstatus]
    have hall : ∀ b, b ∈ idle ↔ b ∈ (p :: w.deferred).map Prod.fst := fun b => by
      rw [List.map_cons, List.mem_cons]
      by_cases hbp : b = p.1
      · exact iff_of_true (hbp ▸ hdef hstatus) (.inl hbp)
      · rw [hidle b hbp, or_iff_right hbp]
    refine ⟨_, _, rfl, ⟨⟨h.neighbors, h.packets, h.metadata, h.addrs, fun x hx => ?_, fun b hb => ?_⟩,
      List.nodup_cons.mpr ⟨hnot, hwaiting⟩, fun p' hp' => ?_, fun _ hburst => by cases hburst⟩, .refl _⟩
    · obtain ⟨hqueue, hreceiver, htimer⟩ := h.each x hx
      exact ⟨hqueue, hreceiver, htimer.trans (hall _)⟩
    · exact h.idle b ((hall b).mpr hb)
    · rcases List.mem_cons.mp hp' with rfl | hp'
      · exact hpoints
      · exact hdeferred p' hp'
  · rw [if_neg hstatus]
    obtain ⟨hok, hothers, hnext, hperm⟩ := packetSent_spec h hnb (hb ▸ hidle) (hb ▸ hnot) hq
      (ho nb q hfollow) timebase
    refine ⟨_, _, rfl, ⟨hok, hwaiting, fun p' hp' => ?_, fun p' hburst => ?_⟩, hperm⟩
    · refine hothers p' (fun he => hnot ?_) (hdeferred p' hp')
      exact hb ▸ he ▸ List.mem_map_of_mem hp'
    · dsimp only at hburst
      split at hburst
      · rename_i hsent
        obtain ⟨q', hq', rfl⟩ := Option.map_eq_some_iff.mp hburst
        exact ⟨hb ▸ hnext hsent q' (hqb ▸ hq'), hnot⟩
      · cases hburst

/-- Who is told about the packets of an event. -/
def Event.tags : Event n → List (ℕ × ℕ)
  | .send sent cptr _ _ => [(sent, cptr)]
  | _ => []

theorem step_ok {w : World n} (h : WorldOk w) {e : Event n} (he : w.Allows e) (timebase : ℕ) :
    ∃ calls w', w.step timebase e = some (calls, w') ∧ WorldOk w' ∧
      (calls.map Callback.tag ++ w'.csma.queued.map Queued.tag).Perm
        (e.tags ++ w.csma.queued.map Queued.tag) := by
  cases e with
  | send sent cptr b queuebuf =>
    obtain ⟨hok, hpoints, hperm⟩ := sendPacket_spec h.csma sent cptr queuebuf he
    exact ⟨_, _, rfl, ⟨hok, h.waiting, fun p hp => hpoints p (h.deferred p hp),
      fun p hp => ⟨hpoints p (h.burst p hp).1, (h.burst p hp).2⟩⟩, hperm⟩
  | fire block o =>
    obtain ⟨hburst, nb, hnb, rfl, htimer, ho⟩ := he
    obtain ⟨pre, post, hat⟩ := at_of_mem h.csma.neighbors.1 hnb
    have hnot : nb.block ∉ w.deferred.map Prod.fst := fun hi =>
      htimer ((h.csma.each nb hnb).timer.mpr hi)
    obtain ⟨q, qs, hqs⟩ := List.exists_cons_of_ne_nil (h.csma.each nb hnb).queue
    obtain ⟨nb', hnb'⟩ : ∃ nb' : Neighbor n, { nb with transmitTimer := none } = nb' := ⟨_, rfl⟩
    obtain ⟨hok, hmem, hqueued, hpoints⟩ := stopped_ok h.csma hnb hnb'
    have hb : nb'.block = nb.block := hnb' ▸ rfl
    have hq : q ∈ nb'.queue := by
      rw [← hnb', hqs]
      exact List.mem_cons_self ..
    -- the packet in front is the one that is sent
    have hfirst : ∀ x y, (w.csma.put nb').follow (nb.block, q.block) = some (x, y) → o.Of y := by
      intro x y hxy
      have hfollow := hb ▸ follow_eq hok hmem hq
      obtain ⟨rfl, rfl⟩ := Prod.mk.inj (Option.some.inj (hfollow.symm.trans hxy))
      exact ho _ (by rw [hqs, List.head?_cons])
    obtain ⟨calls, w', hstep, hok', hperm⟩ := transmit_spec
      (w := { w with csma := w.csma.put nb' }) (p := (nb.block, q.block)) hok
      (fun b hne => by rw [List.mem_cons, or_iff_right hne]) h.waiting
      (fun p hp => hpoints p (h.deferred p hp)) ⟨nb', hmem, hb, List.mem_map_of_mem hq⟩ hnot
      (fun _ => List.mem_cons_self ..) hfirst timebase
    refine ⟨calls, w', ?_, hok', hqueued ▸ hperm⟩
    have hfind : (w.csma.neighborList.find? fun x => x.block = nb.block) = some nb := hat.find
    rw [World.step, hfind]
    dsimp only
    rw [hnb', hqs]
    exact hstep
  | resume p o =>
    obtain ⟨hburst, hp, ho⟩ := he
    have hmap := (List.perm_cons_erase hp).map Prod.fst
    rw [List.map_cons] at hmap
    obtain ⟨hnot, hnodup⟩ := List.nodup_cons.mp (hmap.nodup_iff.mp h.waiting)
    exact transmit_spec (w := { w with deferred := w.deferred.erase p }) h.csma
      (fun b hne => by rw [hmap.mem_iff, List.mem_cons, or_iff_right hne]) hnodup
      (fun p' hp' => h.deferred p' (List.mem_of_mem_erase hp')) (h.deferred p hp) hnot
      (fun _ => List.mem_map_of_mem hp) ho timebase
  | next o =>
    obtain ⟨p, hburst, hstatus, ho⟩ := he
    obtain ⟨hpoints, hnot⟩ := h.burst p hburst
    rw [World.step, hburst]
    exact transmit_spec h.csma (fun _ _ => .rfl) h.waiting h.deferred hpoints hnot
      (fun hd => absurd hd hstatus) ho timebase

/-- A run, and the callbacks. -/
def World.run (timebase : ℕ) (w : World n) : List (Event n) → Option (List Callback × World n)
  | [] => some ([], w)
  | e :: es =>
    match w.step timebase e with
    | none => none
    | some (calls, w) => (w.run timebase es).map fun r => (calls ++ r.1, r.2)

/-- Every event of the run can happen when its turn comes. -/
def World.AllowsAll (timebase : ℕ) (w : World n) : List (Event n) → Prop
  | [] => True
  | e :: es =>
    w.Allows e ∧
      match w.step timebase e with
      | none => True
      | some (_, w') => w'.AllowsAll timebase es

/-- The layer when it is started. -/
def World.init (n num : ℕ) : World n := ⟨Csma.init n num, none, []⟩

theorem init_ok (n num : ℕ) : WorldOk (World.init n num) := by
  refine ⟨⟨holds_init _, holds_init _, holds_init _, List.nodup_nil, fun _ h => ?_, fun _ h => ?_⟩,
    List.nodup_nil, fun _ h => ?_, fun _ h => ?_⟩
  · exact absurd h List.not_mem_nil
  · exact absurd h List.not_mem_nil
  · exact absurd h List.not_mem_nil
  · cases h

/-- Over any run no pointer leads to what was freed, the blocks in use are those of the queues, every
neighbour with packets has its timer running unless a transmission to it waits, and every packet that
was sent is queued or its callback was called, just once. -/
theorem csma_run (num timebase : ℕ) {es : List (Event n)}
    (h : (World.init n num).AllowsAll timebase es) :
    ∃ calls w, (World.init n num).run timebase es = some (calls, w) ∧ WorldOk w ∧
      (es.flatMap Event.tags).Perm
        (calls.map Callback.tag ++ w.csma.queued.map Queued.tag) := by
  suffices hrun : ∀ w : World n, WorldOk w → w.AllowsAll timebase es →
      ∃ calls w', w.run timebase es = some (calls, w') ∧ WorldOk w' ∧
        (es.flatMap Event.tags ++ w.csma.queued.map Queued.tag).Perm
          (calls.map Callback.tag ++ w'.csma.queued.map Queued.tag) by
    obtain ⟨calls, w, hw, hok, hperm⟩ := hrun _ (init_ok n num) h
    exact ⟨calls, w, hw, hok, by simpa [World.init, Csma.init, Csma.queued] using hperm⟩
  clear h
  induction es with
  | nil => exact fun w hw _ => ⟨[], w, rfl, hw, .refl _⟩
  | cons e es ih =>
    intro w hw hall
    obtain ⟨calls, w1, hstep, hok, hperm⟩ := step_ok hw hall.1 timebase
    have hrest := hall.2
    rw [hstep] at hrest
    obtain ⟨calls', w2, hrun, hok', hperm'⟩ := ih w1 hok hrest
    refine ⟨calls ++ calls', w2, ?_, hok', ?_⟩
    · rw [World.run, hstep]
      dsimp only
      rw [hrun]
      rfl
    · -- what this step leaves queued goes through the rest of the run
      rw [List.flatMap_cons, List.map_append, List.append_assoc, List.append_assoc]
      have hthis : (e.tags ++ (es.flatMap Event.tags ++ w.csma.queued.map Queued.tag)).Perm
          (es.flatMap Event.tags ++ (calls.map Callback.tag ++ w1.csma.queued.map Queued.tag)) :=
        (List.perm_append_comm_assoc ..).trans (hperm.symm.append_left _)
      exact hthis.trans ((List.perm_append_comm_assoc ..).trans (hperm'.append_left _))

/-- A packet to the neighbour `r`. -/
def packetTo (r : Rimeaddr 2) : Packetbuf 2 :=
  { mem := fun _ => 7, hdrptr := 48, bufptr := 0, buflen := 3, attrs := fun _ => 0, addrs := fun _ => r }

/-- Two packets for one neighbour: the first is not acknowledged and sent again, and the second follows
it in the burst. -/
def twoPackets : List (Event 2) :=
  let b := packetTo fun _ => 5
  let left (seqno : UInt16) := b.setAttr .macSeqno seqno
  [.send 1 10 b true, .send 2 20 b true, .fire 0 ⟨.noack, left 1, 3⟩, .fire 0 ⟨.ok, left 1, 0⟩,
    .next ⟨.ok, left 2, 0⟩]

theorem csma_run_two_packets : ∃ calls w, (World.init 2 4).run 16 twoPackets = some (calls, w) ∧
    WorldOk w ∧ (twoPackets.flatMap Event.tags).Perm
      (calls.map Callback.tag ++ w.csma.queued.map Queued.tag) :=
  csma_run 4 16 (by
    refine ⟨fun h => absurd h (by decide), fun h => absurd h (by decide), ⟨rfl, _, List.mem_cons_self ..,
      rfl, Option.some_ne_none _, fun q hq => ?_⟩, ⟨rfl, _, List.mem_cons_self .., rfl,
      Option.some_ne_none _, fun q hq => ?_⟩, ⟨_, rfl, by decide, fun nb q hq => ?_⟩, trivial⟩
    · cases hq
      exact ⟨rfl, rfl⟩
    · cases hq
      exact ⟨rfl, rfl⟩
    · cases hq
      exact ⟨rfl, rfl⟩)

example : ((World.init 2 4).run 16 twoPackets).map (fun r => r.1.map fun c => (c.sent, c.status, c.numTx)) =
    some [(1, .ok, 2), (2, .ok, 1)] := rfl

-- an acknowledgement for a neighbour that is waited for takes the packet that waits with it in its burst
example :
    let b := packetTo fun _ => 5
    let left (seqno : UInt16) := b.setAttr .macSeqno seqno
    (World.init 2 4).run 16 [.send 1 10 b true, .fire 0 ⟨.deferred, left 1, 0⟩,
      .send 2 20 (b.setAttr .packetType packetTypeAck) true, .fire 0 ⟨.ok, left 2, 0⟩,
      .next ⟨.ok, left 1, 0⟩, .resume (0, 0) ⟨.ok, left 1, 0⟩] = none := rfl

end Adler.Net
