/-
  The state of a Deluge node and the functions `OTA_RX/deluge_rx.c` and `ota_gateway/deluge_tx.c`
  have in common word for word. What differs (`send_request`, `handle_summary`, `handle_packet`,
  the delays and the main loop) is in `Rx` and `Tx`.

  How the C state is rendered:

  * Machine integers are `Nat` with the wrap written out where the code can wrap (`uint16_t size`,
    `uint8_t current_rx_page`, `int8_t current_tx_page`, ...); clocks are `UInt32` since the code
    subtracts them.
  * `pages` is the memory the page-table pointer points at, without an end. `entries` is the
    number of records `malloc` gave, so an access at `i ≥ entries` is an access outside the table;
    it then reads and writes what lies behind it. Nothing else of the model lives on the heap.
  * A callback timer is pending (in `ctimer_list`) or not. Its delay is not kept: a pending timer may
    fire at any moment. For `rx_timer`, the one that `ctimer_expired` is asked about, the model also
    has its event timer, which runs or not, and the events of it that wait in the queue of the
    kernel. Such an event runs the callback of `rx_timer` when that is pending, even if the timer was
    set again after the event was posted; the event timer then goes on without a callback.
  * `effects` lists what the current event has done so far, latest first: messages sent, page
    records accessed, pages stored, events posted.
  * A block of assignments of the C code is a function of its own with one record update, named
    after what the block does; a handler is the composition of its blocks. An assignment under an
    `if` is an update of the field by a conditional value.
  * Outcomes that the code does not determine (clock, allocation, file operations, contents of
    uninitialised memory) are in `Env`, one for each event.
-/
import Adler.Deluge.Message

namespace Adler.Deluge

open Lib (Mem firstFailing)

/-- `rimeaddr_t`. -/
abbrev RimeAddr := UInt16

/-- `struct deluge_page`. -/
structure Page where
  packetSet : Nat
  crc : UInt16
  lastRequest : UInt32
  lastData : UInt32
  flags : Nat
  version : Nat

namespace Page

/-- `flags & PAGE_COMPLETE`. -/
def complete (p : Page) : Bool := p.flags.testBit 0

/-- `flags &= ~PAGE_COMPLETE`, for a `uint8_t`. -/
def clearComplete (p : Page) : Page := { p with flags := p.flags &&& 254 }

@[simp] theorem complete_clearComplete (p : Page) : p.clearComplete.complete = false := by
  simp [complete, clearComplete]

end Page

/-- A file: its bytes and its end. -/
structure File where
  data : Mem
  len : Nat

/-- `deluge_state`. -/
inductive DelugeState where
  | maintain
  | rx
  | tx
deriving DecidableEq

/-- What an event does besides changing the node's variables. -/
inductive Effect where
  /-- `broadcast_send` of the packet buffer. -/
  | broadcast (bytes : List UInt8)
  /-- `unicast_send` of the packet buffer. -/
  | unicast (dst : RimeAddr) (bytes : List UInt8)
  /-- An access to `obj->pages[index]` while the table has `entries` records. -/
  | page (index entries : Nat)
  /-- A call of `write_page`: the data passed and how many bytes of it were stored. -/
  | store (pagenum : Nat) (data : List UInt8) (stored : Nat)
  /-- `process_post(&gateway_process, deluge_event, &current_object.summary_from)`, for the
      sender copied to `summary_from` just before. -/
  | post (sender : RimeAddr)
  /-- `cfs_open` gave this descriptor. -/
  | openFd (fd : Nat)
  /-- `cfs_close` of this descriptor. -/
  | closeFd (fd : Nat)
deriving DecidableEq

/-- `current_object` and the static variables of the Deluge module. -/
structure Node where
  -- struct deluge_object current_object
  objectId : Nat
  size : Nat
  version : Nat
  updateVersion : Nat
  pages : Nat → Page
  entries : Nat
  currentRxPage : Nat
  currentTxPage : Int
  nrequests : Nat
  currentPage : Mem
  txSet : Nat
  cfsFd : Int
  file : File
  summaryFrom : RimeAddr
  -- static variables
  delugeState : DelugeState
  oldSummary : Bool
  neighborInconsistency : Bool
  rInterval : Nat
  recvAdv : Nat
  broadcastProfile : Bool
  updateState : Bool
  nextObjectId : Nat
  rxTimer : Bool
  /-- The event timer of `rx_timer` is on the list of `etimer.c`. -/
  rxRunning : Bool
  /-- Events of that event timer, posted and not yet delivered to `ctimer_process`. -/
  rxEvents : Nat
  txTimer : Bool
  summaryTimer : Bool
  profileTimer : Bool
  effects : List Effect

/-- What the environment decides during one event. -/
structure Env where
  /-- `clock_time()`. -/
  now : UInt32
  /-- `malloc`: `none` when it fails, else what the new block and the memory behind it hold. -/
  heap : Option (Nat → Page)
  /-- The local page buffer before `read_page`. -/
  stack : Mem
  /-- `cfs_seek` reaches the offset. -/
  seek : Bool
  /-- `cfs_read` and `cfs_write`: `none` for -1, else the most bytes they move. -/
  xfer : Option Nat

namespace Env

/-- File operations succeed. -/
def FilesOk (env : Env) : Prop := env.seek = true ∧ ∃ n, env.xfer = some n ∧ sPage ≤ n

instance (env : Env) : Decidable env.FilesOk :=
  match h : env.xfer with
  | none => .isFalse (by simp [FilesOk, h])
  | some n => decidable_of_iff (env.seek = true ∧ sPage ≤ n) (by simp [FilesOk, h])

end Env

namespace Node

/-- `OBJECT_PAGE_COUNT`: `(size + (S_PAGE - 1)) / S_PAGE` in 16-bit unsigned arithmetic. -/
def pageCount (s : Node) : Nat := (s.size + 255) % 65536 / sPage

/-- `pages[i] = p`. -/
def setPage (i : Nat) (p : Page) (s : Node) : Node :=
  { s with pages := Function.update s.pages i p }

def effect (e : Effect) (s : Node) : Node := { s with effects := e :: s.effects }

/-- `packetbuf_copyfrom(msg, len)`, which keeps what fits, and `broadcast_send`. -/
def broadcast (bytes : List UInt8) (s : Node) : Node :=
  s.effect (.broadcast (bytes.take packetbufSize))

/-- `packetbuf_copyfrom(msg, len)` and `unicast_send`. -/
def unicast (dst : RimeAddr) (bytes : List UInt8) (s : Node) : Node :=
  s.effect (.unicast dst (bytes.take packetbufSize))

/-- The access `obj->pages[i]`. -/
def touch (i : Nat) (s : Node) : Node := s.effect (.page i s.entries)

/-- The accesses `obj->pages[0]`, ..., `obj->pages[n - 1]`. -/
def touchBelow (n : Nat) (s : Node) : Node :=
  { s with effects := ((List.range n).map fun i => Effect.page i s.entries).reverse ++ s.effects }

/-- `ctimer_set(&rx_timer, ..)`, `ctimer_reset(&rx_timer)`. -/
def armRx (s : Node) : Node := { s with rxTimer := true, rxRunning := true }

/-- `ctimer_expired(&rx_timer)`. -/
def rxExpired (s : Node) : Bool := !s.rxRunning

/-- `if(ctimer_expired(&rx_timer)) ctimer_set(&rx_timer, ..)`. -/
def armExpiredRx (s : Node) : Node :=
  { s with rxTimer := rxExpired s || s.rxTimer, rxRunning := rxExpired s || s.rxRunning }

/-- `ctimer_stop(&rx_timer)`. -/
def stopRx (s : Node) : Node := { s with rxTimer := false, rxRunning := false }

/-- `etimer_process` finds that the event timer of `rx_timer` has run down, and posts its event. -/
def expireRx (s : Node) : Node :=
  { s with rxRunning := false, rxEvents := s.rxEvents + s.rxRunning.toNat }

/-- `ctimer_process` is given an event of `rx_timer`: one that waits or, when none does, that of the
    event timer, which runs down now. A pending `rx_timer` leaves `ctimer_list`. -/
def takeRx (s : Node) : Node :=
  { s with
    rxTimer := false
    rxRunning := s.rxRunning && decide (s.rxEvents ≠ 0)
    rxEvents := s.rxEvents - 1 }

/-- `ctimer_set(&tx_timer, ..)`, `ctimer_reset(&tx_timer)`. -/
def armTx (s : Node) : Node := { s with txTimer := true }

/-- `rimeaddr_copy(&current_object.summary_from, sender)`. -/
def copySender (sender : RimeAddr) (s : Node) : Node := { s with summaryFrom := sender }

/-- `if(version != current_object.version) neighbor_inconsistency = 1;` -/
def noteVersion (version : Nat) (s : Node) : Node :=
  { s with neighborInconsistency := decide (version ≠ s.version) || s.neighborInconsistency }

end Node

open Node

/-! ## Functions shared by `deluge_rx.c` and `deluge_tx.c` -/

/-- `transition`. -/
def transition (state : DelugeState) (s : Node) : Node :=
  if state = s.delugeState then s
  else match s.delugeState with
    | .maintain => { s with summaryTimer := false, profileTimer := false, delugeState := state }
    | .rx => { stopRx s with delugeState := state }
    | .tx => { s with txTimer := false, delugeState := state }

/-- `cfs_seek(fd, offset, CFS_SEEK_SET)`, which moves the end of the file up to the offset. -/
def cfsSeek (offset : Nat) (f : File) : File := { f with len := max f.len offset }

/-- `cfs_write` of `block` at `offset`, which moves the end of the file up to the end of it. -/
def cfsWrite (offset : Nat) (block : List UInt8) (f : File) : File :=
  ⟨Mem.copy f.data offset block, max f.len (offset + block.length)⟩

/-- The file after `write_page`, and what the C function returns. -/
def writeFile (env : Env) (pagenum : Nat) (data : List UInt8) (f : File) : Int × File :=
  let offset := pagenum * sPage
  if env.seek then
    match env.xfer with
    | none => (-1, cfsSeek offset f)
    | some n => ((data.take n).length, cfsWrite offset (data.take n) (cfsSeek offset f))
  else (-1, f)

/-- `write_page`; `data` is the block to be written. Returns what the C function returns. -/
def writePage (env : Env) (pagenum : Nat) (data : List UInt8) (s : Node) : Int × Node :=
  let r := writeFile env pagenum data s.file
  (r.1, effect (.store pagenum data r.1.toNat) { s with file := r.2 })

/-- What `read_page` does to the file (`cfs_seek` moves its end), the buffer and the result. -/
def readFile (env : Env) (pagenum : Nat) (buf : Mem) (f : File) : Int × Mem × File :=
  let offset := pagenum * sPage
  if env.seek then
    let f := cfsSeek offset f
    match env.xfer with
    | none => (-1, buf, f)
    | some n =>
      let got := min (min sPage n) (f.len - offset)
      (got, Mem.copy buf 0 (Mem.read f.data offset got), f)
  else (-1, buf, f)

/-- `read_page` into `buf`: what the C function returns, the buffer and the node. -/
def readPage (env : Env) (pagenum : Nat) (buf : Mem) (s : Node) : Int × Mem × Node :=
  let r := readFile env pagenum buf s.file
  (r.1, r.2.1, { s with file := r.2.2 })

/-- `init_page`. -/
def initPage (env : Env) (pagenum : Nat) (have_ : Bool) (s : Node) : Node :=
  let page := { s.pages pagenum with flags := 0, lastRequest := 0, lastData := 0 }
  if have_ then
    let page := { page with version := s.version, packetSet := allPackets, flags := pageComplete }
    let (_, buf, s) := readPage env pagenum env.stack s
    s.setPage pagenum { page with crc := crc16Data (Mem.read buf 0 sPage) 0 }
  else s.setPage pagenum { page with version := 0, packetSet := 0 }

/-- `highest_available_page`: the index of the first page that is not complete. -/
def highestAvailablePage (s : Node) : Nat :=
  firstFailing (fun i => (s.pages i).complete) s.pageCount

/-- The records `highest_available_page` looks at: up to the first that is not complete. -/
def scanPages (s : Node) : Node := s.touchBelow (min (highestAvailablePage s + 1) s.pageCount)

/-- `advertise_summary`. -/
def advertiseSummary (s : Node) : Node :=
  if constK ≤ s.recvAdv then { s with summaryTimer := false }
  else (scanPages s).broadcast
    (DelugeMsgSummary.bytes ⟨s.updateVersion, highestAvailablePage s, s.objectId⟩)

/-- `send_request` up to the rate check: the request is for the current page. -/
def unicastRequest (s : Node) : Node :=
  let page := s.pages s.currentRxPage
  (s.touch s.currentRxPage).unicast s.summaryFrom
    (DelugeMsgRequest.bytes
      ⟨page.version, s.currentRxPage, 255 - page.packetSet % 256, s.objectId⟩)

/-- The rate check of `send_request`, `CONST_LAMBDA` being `lambda`. -/
def limitRequests (lambda : Nat) (s : Node) : Node :=
  let s := { s with nrequests := (s.nrequests + 1) % 256 }
  if s.nrequests = lambda then transition .maintain { s with nrequests := 0 } else armRx s

/-- `handle_summary` up to the comparison of the versions' ages: the two first `if`s. -/
def noteSummary (msg : DelugeMsgSummary) (highestAvailable : Nat) (s : Node) : Node :=
  let differs := msg.version ≠ s.version ∨ msg.highestAvailable ≠ highestAvailable
  { s with
    neighborInconsistency := decide differs || s.neighborInconsistency
    recvAdv := if differs then s.recvAdv else (s.recvAdv + 1) % 65536
    oldSummary := decide (msg.version < s.version) || s.oldSummary
    broadcastProfile := decide (msg.version < s.version) || s.broadcastProfile }

/-- Packet `packetnum` of a page whose bytes are in `buf`, as `send_page` fills it in. -/
def packetOf (s : Node) (pagenum : Nat) (buf : Mem) (packetnum : Nat) : DelugeMsgPacket :=
  let payload := Mem.read buf (sPkt * packetnum) sPkt
  ⟨(s.pages pagenum).version, pagenum, packetnum, crc16Data payload 0, s.objectId, payload⟩

/-- The loop of `send_page` over the packets of the page. -/
def sendPackets (pagenum : Nat) (buf : Mem) (s : Node) : Node :=
  (List.range nPkt).foldl (fun s k =>
    if s.txSet.testBit k then s.broadcast (packetOf s pagenum buf k).bytes else s) s

/-- `send_page`. -/
def sendPage (env : Env) (pagenum : Nat) (s : Node) : Node :=
  let (_, buf, s) := readPage env pagenum env.stack (s.touch pagenum)
  { sendPackets pagenum buf s with txSet := 0 }

/-- `tx_callback`. -/
def txCallback (env : Env) (s : Node) : Node :=
  if 0 ≤ s.currentTxPage ∧ s.txSet ≠ 0 then
    let s := sendPage env s.currentTxPage.toNat s
    if s.txSet ≠ 0 then armTx s else transition .maintain { s with currentTxPage := -1 }
  else s

/-- The conversion of a `uint8_t` to `int8_t`. -/
def toInt8 (n : Nat) : Int := if n < 128 then n else (n : Int) - 256

/-- `pages[i].last_request = now`. -/
def stampRequest (i : Nat) (now : UInt32) (s : Node) : Node :=
  s.setPage i { s.pages i with lastRequest := now }

/-- Deluge T.1 of `handle_request`: the packets asked for are added to, or replace, those still
    to be sent. -/
def queuePackets (msg : DelugeMsgRequest) (s : Node) : Node :=
  let same := (msg.pagenum : Int) = s.currentTxPage
  { s with
    txSet := if same then s.txSet ||| msg.requestSet else msg.requestSet
    currentTxPage := if same then s.currentTxPage else toInt8 msg.pagenum }

/-- `handle_request`. -/
def handleRequest (env : Env) (msg : DelugeMsgRequest) (s : Node) : Node :=
  if s.pageCount ≤ msg.pagenum then s
  else
    let s := noteVersion msg.version s
    let highestAvailable := highestAvailablePage s
    let s := scanPages s
    if msg.version = s.version ∧ msg.pagenum ≤ highestAvailable then
      let s := stampRequest msg.pagenum env.now (s.touch msg.pagenum)
      armTx (transition .tx (queuePackets msg s))
    else s

/-- `memcpy(&current_object.current_page[S_PKT * packetnum], payload, S_PKT)`. -/
def copyPayload (packet : DelugeMsgPacket) (s : Node) : Node :=
  { s with currentPage := Mem.copy s.currentPage (sPkt * packet.packetnum) packet.payload }

/-- `page->last_data` and `page->packet_set`, once the CRC is found right. -/
def markPacket (now : UInt32) (packet : DelugeMsgPacket) (s : Node) : Node :=
  let page := s.pages packet.pagenum
  s.setPage packet.pagenum { page with
    lastData := now, packetSet := page.packetSet ||| 1 <<< packet.packetnum }

/-- `page->version`, `page->flags` and `current_rx_page++` of a page that was written. -/
def finishPage (packet : DelugeMsgPacket) (s : Node) : Node :=
  { s with
    pages := Function.update s.pages packet.pagenum
      { s.pages packet.pagenum with version := packet.version, flags := pageComplete }
    currentRxPage := (s.currentRxPage + 1) % 256 }

/-- What follows a finished page: the commit after the last page, where `announce` is what the
    file does between raising the version and setting `update_state`, or the next request. The
    page count minus one is computed in `unsigned`, so 0 - 1 is 65535. -/
def nextPage (announce : Node → Node) (packet : DelugeMsgPacket) (s : Node) : Node :=
  if packet.pagenum = (s.pageCount + 65535) % 65536 then
    { announce { s with version := s.updateVersion } with updateState := true }
  else if s.currentRxPage < s.pageCount then armExpiredRx s
  else s

/-- `handle_packet`. `none`: the copy of the payload leaves `current_page`. -/
def handlePacketWith (announce : Node → Node) (env : Env) (packet : DelugeMsgPacket)
    (s : Node) : Option Node :=
  if packet.pagenum ≠ s.currentRxPage then some s
  else
    let s := (noteVersion packet.version s).touch packet.pagenum
    let page := s.pages packet.pagenum
    if packet.version = page.version ∧ page.complete = false then
      if nPkt ≤ packet.packetnum then none
      else
        let s := copyPayload packet s
        if packet.CrcOk then
          let s := markPacket env.now packet s
          if (s.pages packet.pagenum).packetSet = allPackets then
            let s := (writePage env packet.pagenum (Mem.read s.currentPage 0 sPage) s).2
            some (transition .maintain (nextPage announce packet (finishPage packet s)))
          else some s
        else some s
    else some s

/-- The profile `send_profile` fills in. -/
def profileOf (s : Node) : DelugeMsgProfile :=
  ⟨s.version, s.pageCount % 256, s.objectId, fun i => (s.pages i).version⟩

/-- `send_profile`. -/
def sendProfile (s : Node) : Node :=
  if s.broadcastProfile ∧ s.recvAdv < constK then
    broadcast (profileOf s).bytes { s with broadcastProfile := false }
  else s

/-- The new table of `handle_profile`, from `malloc` to `free`: the `npages` old records are
    copied over the new block, however many records that has. -/
def newTable (npages : Nat) (block : Nat → Page) (s : Node) : Node :=
  { s with
    pages := fun i => if i < npages then s.pages i else block i
    entries := s.pageCount }

/-- One iteration of the loop of `handle_profile` over the pages both versions have. -/
def reversionPage (versionVector : Nat → Nat) (i : Nat) (p : Page) : Page :=
  if versionVector i > p.version then
    { ({ p with packetSet := 0 } : Page).clearComplete with version := versionVector i }
  else p

/-- That loop. -/
def reversionPages (versionVector : Nat → Nat) (npages : Nat) (s : Node) : Node :=
  { s with pages := (List.range npages).foldl (fun pages i =>
      Function.update pages i (reversionPage versionVector i (pages i))) s.pages }

/-- The loop of `handle_profile` over the pages from `npages` up to, not including, `total`. -/
def initPages (env : Env) (npages total : Nat) (s : Node) : Node :=
  (List.range' npages (total - npages)).foldl (fun s i => initPage env i false s) s

/-- `current_rx_page` and `update_version` at the end of `handle_profile`. -/
def beginUpdate (version : Nat) (s : Node) : Node :=
  { s with currentRxPage := highestAvailablePage s % 256, updateVersion := version }

/-- `handle_profile`. -/
def handleProfile (env : Env) (msg : DelugeMsgProfile) (s : Node) : Node :=
  if msg.version ≤ s.updateVersion then s
  else
    let npages := s.pageCount
    let s := { s with txSet := 0, size := msg.npages * sPage % 65536 }
    match env.heap with
    | none => s
    | some block =>
      let s := newTable npages block s
      let npages := if msg.npages < npages then msg.npages else npages
      let s := initPages env npages msg.npages (reversionPages msg.versionVector npages s)
      armRx (transition .rx (beginUpdate msg.version (scanPages s)))

/-- The test `command_dispatcher` makes before it calls `handle_profile`. The sum is formed in
    16-bit `unsigned` arithmetic and cannot wrap, `4 + 255 * 255` being below `2^16`. -/
def profileLengthOk (b : Packetbuf) : Prop :=
  let profile := DelugeMsgProfile.ofBuf b
  sizeofProfile ≤ b.len ∧
    sizeofProfile + profile.npages * profile.versionVector 0 ≤ b.len

instance (b : Packetbuf) : Decidable (profileLengthOk b) :=
  inferInstanceAs (Decidable (_ ∧ _))

/-- `command_dispatcher`, for the handlers of the file it is in. -/
def commandDispatcherWith
    (handleSummary : Env → DelugeMsgSummary → RimeAddr → Node → Node)
    (handlePacket : Env → DelugeMsgPacket → Node → Option Node)
    (env : Env) (sender : RimeAddr) (b : Packetbuf) (s : Node) : Option Node :=
  if b.len < 1 then some s
  else if b.byte 0 = delugeCmdSummary then
    some (if sizeofSummary ≤ b.len then handleSummary env (.ofBuf b) sender s else s)
  else if b.byte 0 = delugeCmdRequest then
    some (if sizeofRequest ≤ b.len then handleRequest env (.ofBuf b) s else s)
  else if b.byte 0 = delugeCmdPacket then
    if sizeofPacket ≤ b.len then handlePacket env (.ofBuf b) s else some s
  else if b.byte 0 = delugeCmdProfile then
    some (if profileLengthOk b then handleProfile env (.ofBuf b) s else s)
  else some s

/-! ## Start -/

/-- What the environment decides during `deluge_disseminate`. -/
structure InitEnv where
  /-- The descriptor `cfs_open(filename, CFS_READ | CFS_WRITE)` gives, if any. -/
  opened : Option Nat
  /-- The descriptor the `cfs_open` of `file_size` gives, if any. -/
  reopened : Option Nat
  env : Env

/-- `file_size`; the `cfs_offset_t` it returns is converted to the `uint16_t` it is stored in. -/
def fileSize (e : InitEnv) (f : File) (s : Node) : Nat × Node :=
  match e.reopened with
  | none => (65535, s)
  | some fd => (f.len % 65536, effect (.closeFd fd) (effect (.openFd fd) s))

/-- `init_object` up to `file_size`: the file is open, the object has its id. -/
def openObject (fd : Nat) (f : File) (s : Node) : Node :=
  effect (.openFd fd) { s with
    cfsFd := fd
    file := f
    objectId := s.nextObjectId
    nextObjectId := (s.nextObjectId + 1) % 256 }

/-- The assignments of `init_object` from `size` to `tx_set`. -/
def startObject (size version : Nat) (s : Node) : Node :=
  { s with
    size := size
    version := version % 256
    updateVersion := version % 256
    currentRxPage := 0
    nrequests := 0
    txSet := 0 }

/-- The table `init_object` allocates. -/
def allocPages (block : Nat → Page) (s : Node) : Node :=
  { s with pages := block, entries := s.pageCount }

/-- The loop of `init_object`. -/
def initAllPages (env : Env) (s : Node) : Node :=
  (List.range s.pageCount).foldl (fun s i => initPage env i true s) s

/-- `memset(obj->current_page, 0, sizeof(obj->current_page))`. -/
def clearCurrentPage (s : Node) : Node :=
  { s with currentPage := Mem.copy s.currentPage 0 (List.replicate sPage 0) }

/-- `init_object` for the file `f`. -/
def initObject (e : InitEnv) (f : File) (version : Nat) (s : Node) : Int × Node :=
  match e.opened with
  | none => (-1, { s with cfsFd := -1 })
  | some fd =>
    let r := fileSize e f (openObject fd f s)
    let s := startObject r.1 version r.2
    match e.env.heap with
    | none => (-1, effect (.closeFd fd) s)
    | some block => (0, clearCurrentPage (initAllPages e.env (allocPages block s)))

/-- The static variables before anything ran. -/
def Node.zero : Node where
  objectId := 0
  size := 0
  version := 0
  updateVersion := 0
  pages := fun _ => ⟨0, 0, 0, 0, 0, 0⟩
  entries := 0
  currentRxPage := 0
  currentTxPage := 0
  nrequests := 0
  currentPage := fun _ => 0
  txSet := 0
  cfsFd := 0
  file := ⟨fun _ => 0, 0⟩
  summaryFrom := 0
  delugeState := .maintain
  oldSummary := false
  neighborInconsistency := false
  rInterval := 0
  recvAdv := 0
  broadcastProfile := false
  updateState := false
  nextObjectId := 0
  rxTimer := false
  rxRunning := false
  rxEvents := 0
  txTimer := false
  summaryTimer := false
  profileTimer := false
  effects := []

/-- `deluge_disseminate`; `start` is what `deluge_process` does up to its first wait. -/
def delugeDisseminate (start : Node → Node) (e : InitEnv) (f : File) (version : Nat)
    (s : Node) : Int × Node :=
  if s.nextObjectId > 0 then (-1, s)
  else
    let r := initObject e f version s
    if r.1 < 0 then (-1, r.2) else (0, start r.2)

/-- The events of a Deluge node. -/
inductive Event where
  /-- `broadcast_recv` or `unicast_recv`. -/
  | receive (sender : RimeAddr) (b : Packetbuf)
  /-- The event timer of `rx_timer` runs down. -/
  | rxExpires
  /-- An event of it is delivered. -/
  | rxTimer
  | txTimer
  | summaryTimer
  | profileTimer
  /-- `LONG_TIMER` of `deluge_process` has run down: the next round starts. -/
  | round

def Event.isTxTimer : Event → Bool
  | .txTimer => true
  | _ => false

end Adler.Deluge
