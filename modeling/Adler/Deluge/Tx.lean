/-
  `ota_gateway/deluge_tx.c`: the gateway, which has the whole image and disseminates it.
-/
import Adler.Deluge.Rx

namespace Adler.Deluge.Tx

open Node

/-- `T_LOW` of `deluge_tx.h`. -/
@[simp] abbrev tLow : Nat := 4

/-- `CONST_LAMBDA` of `deluge_tx.h`. -/
@[simp] abbrev constLambda : Nat := 2

/-- `send_request`; unlike the receiver's it leaves `last_request` alone. -/
def sendRequest (s : Node) : Node := limitRequests constLambda (unicastRequest s)

/-- The loop of `handle_summary` over the first pages: `oldest_request` and `oldest_data`. -/
def oldestStamps (pages : Nat → Page) (now : UInt32) (n : Nat) : UInt32 × UInt32 :=
  (List.range n).foldl (fun (oldestRequest, oldestData) i =>
    let page := pages i
    (if page.lastRequest < oldestRequest then page.lastRequest else oldestRequest,
      if page.lastRequest < oldestData then page.lastData else oldestData)) (now, now)

/-- `handle_summary`: when the sender has the gateway's version and all its pages, the gateway's
    process is told. -/
def postReport (msg : DelugeMsgSummary) (sender : RimeAddr) (highestAvailable : Nat)
    (s : Node) : Node :=
  if msg.version = s.version ∧ msg.highestAvailable = highestAvailable then
    effect (.post sender) (copySender sender s)
  else s

/-- Deluge M.5 of `handle_summary`, once the sender is known to offer more. -/
def offerRequest (env : Env) (msg : DelugeMsgSummary) (sender : RimeAddr) (s : Node) : Node :=
  if s.pageCount < msg.highestAvailable then s
  else
    let oldest := oldestStamps s.pages env.now msg.highestAvailable
    let s := s.touchBelow msg.highestAvailable
    if Rx.secondsSince env.now oldest.1 ≤ 2 * s.rInterval ∨
        Rx.secondsSince env.now oldest.2 ≤ s.rInterval then s
    else armExpiredRx (transition .rx (copySender sender s))

/-- `handle_summary`. -/
def handleSummary (env : Env) (msg : DelugeMsgSummary) (sender : RimeAddr) (s : Node) : Node :=
  let highestAvailable := highestAvailablePage s
  let s := postReport msg sender highestAvailable (noteSummary msg highestAvailable (scanPages s))
  if msg.version = s.updateVersion ∧ highestAvailable < msg.highestAvailable then
    offerRequest env msg sender s
  else s

/-- `handle_packet`: the gateway announces nothing on completion. -/
def handlePacket (env : Env) (packet : DelugeMsgPacket) (s : Node) : Option Node :=
  handlePacketWith id env packet s

/-- `command_dispatcher`. -/
def commandDispatcher (env : Env) (sender : RimeAddr) (b : Packetbuf) (s : Node) : Option Node :=
  commandDispatcherWith handleSummary handlePacket env sender b s

/-- The body of the loop of `deluge_process`, up to `LONG_TIMER`. -/
def round (s : Node) : Node :=
  { s with recvAdv := 0, oldSummary := false, summaryTimer := true, profileTimer := true }

/-- `deluge_process` up to its first wait. -/
def start (s : Node) : Node := round { s with delugeState := .maintain, rInterval := tLow }

/-- One event. A callback runs only when its timer is pending. -/
def step (env : Env) (e : Event) (s : Node) : Option Node :=
  let s := { s with effects := [] }
  match e with
  | .receive sender b => commandDispatcher env sender b s
  | .rxExpires => some (expireRx s)
  | .rxTimer => some (if s.rxTimer then sendRequest (takeRx s) else takeRx s)
  | .txTimer => some (if s.txTimer then txCallback env { s with txTimer := false } else s)
  | .summaryTimer =>
    some (if s.summaryTimer then advertiseSummary { s with summaryTimer := false } else s)
  | .profileTimer =>
    some (if s.profileTimer then sendProfile { s with profileTimer := false } else s)
  | .round => some (round s)

/-- The step relation: `step`, and any state at all once `current_page` is overrun. -/
def Step (a : Env × Event) (s s' : Node) : Prop := Lib.Havoc (step a.1 a.2 s) s'

/-- A gateway on which `deluge_disseminate(file, version)` has just returned 0. -/
def Booted (f : File) (version : Nat) (s : Node) : Prop :=
  ∃ e, delugeDisseminate start e f version Node.zero = (0, s)

end Adler.Deluge.Tx
