/-
  `OTA_RX/deluge_rx.c`: the receiving node, and the polling loop of `OTA_RX/test-ota.c` that
  loads a received image.

  `Rx.step` is one event of the node. It is `none` when `handle_packet` copies a payload past the
  end of `current_page`: the statics behind it are overwritten and nothing more is known of the
  node, so `Rx.Step` then allows any state (`Lib.Havoc`).
-/
import Adler.Deluge.Node
import Adler.Lib.Run

namespace Adler.Deluge.Rx

open Node

/-- `T_LOW` of `deluge_rx.h`. -/
@[simp] abbrev tLow : Nat := 2

/-- `CONST_LAMBDA` of `deluge_rx.h`. -/
@[simp] abbrev constLambda : Nat := 1

/-- `(now - t) / CLOCK_SECOND`, in 32-bit unsigned arithmetic. -/
def secondsSince (now t : UInt32) : Nat := (now - t).toNat / clockSecond

/-- `send_request`. -/
def sendRequest (env : Env) (s : Node) : Node :=
  limitRequests constLambda (stampRequest s.currentRxPage env.now (unicastRequest s))

/-- `handle_summary`: a node that knows of no update answers a newer version with a summary of its
    own, so that the sender sends a profile. -/
def askProfile (msg : DelugeMsgSummary) (sender : RimeAddr) (s : Node) : Node :=
  let newer := s.updateVersion = s.version ∧ s.version < msg.version
  { s with
    summaryTimer := decide newer || s.summaryTimer
    summaryFrom := if newer then sender else s.summaryFrom }

/-- Deluge M.5 of `handle_summary`, once the sender is known to offer more. -/
def offerRequest (env : Env) (msg : DelugeMsgSummary) (sender : RimeAddr) (s : Node) : Node :=
  if s.pageCount < msg.highestAvailable then s
  else
    let page := s.pages s.currentRxPage
    let s := s.touch s.currentRxPage
    if secondsSince env.now page.lastRequest ≤ s.rInterval ∨
        secondsSince env.now page.lastData ≤ s.rInterval then s
    else armExpiredRx (transition .rx (copySender sender s))

/-- `handle_summary`. -/
def handleSummary (env : Env) (msg : DelugeMsgSummary) (sender : RimeAddr) (s : Node) : Node :=
  let highestAvailable := highestAvailablePage s
  let s := askProfile msg sender (noteSummary msg highestAvailable (scanPages s))
  if msg.version = s.updateVersion ∧ highestAvailable < msg.highestAvailable then
    offerRequest env msg sender s
  else s

/-- `handle_packet`: on completion the node tells the gateway at once. -/
def handlePacket (env : Env) (packet : DelugeMsgPacket) (s : Node) : Option Node :=
  handlePacketWith advertiseSummary env packet s

/-- `command_dispatcher`. -/
def commandDispatcher (env : Env) (sender : RimeAddr) (b : Packetbuf) (s : Node) : Option Node :=
  commandDispatcherWith handleSummary handlePacket env sender b s

/-- The body of the loop of `deluge_process`, up to `LONG_TIMER`. -/
def round (s : Node) : Node :=
  { s with
    rInterval := if s.neighborInconsistency then tLow
      else if tHigh ≤ 2 * s.rInterval then tHigh else 2 * s.rInterval
    neighborInconsistency := false
    recvAdv := 0
    oldSummary := false }

/-- `deluge_process` up to its first wait. -/
def start (s : Node) : Node := round { s with delugeState := .maintain, rInterval := tLow }

/-- One event. A callback runs only when its timer is pending. -/
def step (env : Env) (e : Event) (s : Node) : Option Node :=
  let s := { s with effects := [] }
  match e with
  | .receive sender b => commandDispatcher env sender b s
  | .rxExpires => some (expireRx s)
  | .rxTimer => some (if s.rxTimer then sendRequest env (takeRx s) else takeRx s)
  | .txTimer => some (if s.txTimer then txCallback env { s with txTimer := false } else s)
  | .summaryTimer =>
    some (if s.summaryTimer then advertiseSummary { s with summaryTimer := false } else s)
  | .profileTimer =>
    some (if s.profileTimer then sendProfile { s with profileTimer := false } else s)
  | .round => some (round s)

/-- The step relation: `step`, and any state at all once `current_page` is overrun. -/
def Step (a : Env × Event) (s s' : Node) : Prop := Lib.Havoc (step a.1 a.2 s) s'

/-- A node on which `deluge_disseminate(file, version)` has just returned 0. -/
def Booted (f : File) (version : Nat) (s : Node) : Prop :=
  ∃ e, delugeDisseminate start e f version Node.zero = (0, s)

/-! ## `ota_test_process` -/

/-- `MAX_RETRY` of `test-ota.c`. -/
@[simp] abbrev maxRetry : Nat := 3

/-- `check_update`. -/
def checkUpdate (s : Node) : Bool × Node := (s.updateState, { s with updateState := false })

/-- What the receiving mote does: an event of its Deluge module, or one pass of the loop of
    `ota_test_process` after its five seconds. `loads i` is the return value of the `i`-th call of
    `codeload` in that pass and the file it leaves behind. -/
inductive OtaEvent where
  | deluge (env : Env) (e : Event)
  | poll (loads : Nat → Nat × File)

/-- The retry loop from try `i` on, with `n` tries left: the states in which `codeload` is called,
    and the state after the loop. -/
def loadLoop (loads : Nat → Nat × File) : Nat → Nat → Node → List Node × Node
  | _, 0, s => ([], s)
  | i, n + 1, s =>
    let s' := { s with file := (loads i).2 }
    if (loads i).1 = 0 then ([s], s')
    else
      let (calls, t) := loadLoop loads (i + 1) n s'
      (s :: calls, t)

/-- One pass of the polling loop: the states in which `codeload` is called, and the new state. -/
def poll (loads : Nat → Nat × File) (s : Node) : List Node × Node :=
  let (updated, s) := checkUpdate s
  if updated then loadLoop loads 0 maxRetry s else ([], s)

/-- The steps of the receiving mote. -/
def OtaStep (a : OtaEvent) (s s' : Node) : Prop :=
  match a with
  | .deluge env e => Step (env, e) s s'
  | .poll loads => s' = (poll loads s).2

end Adler.Deluge.Rx
