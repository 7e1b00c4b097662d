/-
  The frames on the serial line between the gateway mote and the computer on the UAV:
  `ota_gateway/serial_thread.c` and `network_control/src/net_interface.cpp`.

  A frame is `55 AA`, a length byte, the id, the data and a check byte; the length counts the id and
  the data. The two programs have the same `get_check` and the same decoder up to the size of
  `data_buf` and what they do with it after a frame.

  * `none` is an access outside `sent_buf` or `data_buf`.
  * `Decoder` holds the static variables of `frame_decode` and the fields of the frame it fills in.
    `data_count` is an `int`, and never gets far beyond `RX_BUF_LEN`.
-/
import Adler.Lib.Feed
import Adler.Lib.Memory

namespace Adler.Serial

open Lib (Mem Machine firstFailing)

/-- `HEADER_0`. -/
@[simp] abbrev header0 : UInt8 := 0x55

/-- `HEADER_1`. -/
@[simp] abbrev header1 : UInt8 := 0xAA

/-- A `port_frame` as it is sent and delivered; its `data_len` is the length of `data`. -/
structure PortFrame where
  frameId : UInt8
  data : List UInt8
deriving DecidableEq

/-- `get_check`. -/
def getCheck (dataBuf : Mem) : UInt8 :=
  (List.range (dataBuf 0).toNat).foldl (fun ret i => ret ^^^ dataBuf (i + 1)) (dataBuf 0)

/-! ## Sending -/

/-- `TX_BUF_LEN` of both programs. -/
@[simp] abbrev txBufLen : Nat := 30

/-- `sent_buf` before the check byte is added: `sent_buf[2]` is `frame_len - 3`. -/
def sentBuf (frame : PortFrame) : List UInt8 :=
  [header0, header1, .ofNat (4 + frame.data.length - 3), frame.frameId] ++ frame.data

/-- The bytes both programs put in `sent_buf`, up to the check byte. -/
def frameBytes (frame : PortFrame) : List UInt8 :=
  sentBuf frame ++ [getCheck fun i => (sentBuf frame).getD (i + 2) 0]

/-- `serial_sent_frame` of the gateway. -/
def SerialThread.serialSentFrame (frame : PortFrame) : Option (List UInt8) :=
  let sent := frameBytes frame
  if sent.length ≤ txBufLen then some sent else none

/-- `port_sent_frame`, which adds the byte that ends a line. -/
def NetInterface.portSentFrame (frame : PortFrame) : Option (List UInt8) :=
  let sent := frameBytes frame ++ [0x0a]
  if sent.length ≤ txBufLen then some sent else none

/-! ## Receiving -/

/-- `DAT_STATE`. -/
inductive DatState where
  | init
  | header
  | len
  | id
  | data
  | check
deriving DecidableEq

structure Decoder where
  receiveState : DatState
  dataCount : Nat
  dataBuf : Mem
  frameLen : UInt8
  frameId : UInt8
  dataLen : UInt8

namespace Decoder

/-- The decoder before the first byte. -/
def start : Decoder := ⟨.init, 0, fun _ => 0, 0, 0, 0⟩

/-- `data_buf[data_count++] = ch`. -/
def put (rxBufLen : Nat) (ch : UInt8) (d : Decoder) : Option Decoder :=
  if d.dataCount < rxBufLen then
    some { d with
      dataBuf := Function.update d.dataBuf d.dataCount ch
      dataCount := d.dataCount + 1 }
  else none

/-- The frame of which `data_decode` is given the address. -/
def frame (d : Decoder) : PortFrame := ⟨d.frameId, Mem.read d.dataBuf 2 d.dataLen.toNat⟩

/-- The state `DAT_CHACK`: `get_check` reads `data_buf` up to the index in its first byte. -/
def checkFrame (rxBufLen : Nat) (ch : UInt8) (d : Decoder) : Option (Decoder × List PortFrame) :=
  if (d.dataBuf 0).toNat < rxBufLen then
    some (d, if ch = getCheck d.dataBuf then [d.frame] else [])
  else none

end Decoder

/-- `frame_decode`; `clear` is what the program does with `data_buf` at the end of a frame. -/
def frameDecodeWith (rxBufLen : Nat) (clear : Decoder → Option Decoder) :
    Machine UInt8 Decoder PortFrame := fun ch d =>
  match d.receiveState with
  | .init => some (if ch = header0 then { d with receiveState := .header } else d, [])
  | .header => some ({ d with receiveState := if ch = header1 then .len else .init }, [])
  | .len => (d.put rxBufLen ch).map fun d =>
      ({ d with frameLen := ch, dataLen := ch - 1, receiveState := .id }, [])
  | .id => (d.put rxBufLen ch).map fun d => ({ d with frameId := ch, receiveState := .data }, [])
  | .data => (d.put rxBufLen ch).map fun d =>
      (if d.dataCount = d.frameLen.toNat + 1 then { d with receiveState := .check, dataCount := 0 }
        else d, [])
  | .check => (d.checkFrame rxBufLen ch).bind fun r =>
      (clear r.1).map fun d => ({ d with receiveState := .init }, r.2)

namespace SerialThread

/-- `RX_BUF_LEN` of the gateway. -/
@[simp] abbrev rxBufLen : Nat := 30

/-- `frame_decode` of the gateway, which leaves `data_buf` alone. -/
def frameDecode : Machine UInt8 Decoder PortFrame := frameDecodeWith rxBufLen some

end SerialThread

namespace NetInterface

/-- `RX_BUF_LEN` of `network_control`. -/
@[simp] abbrev rxBufLen : Nat := 500

/-- `memset(data_buf, 0, strlen(data_buf))`. -/
def clearBuf (d : Decoder) : Option Decoder :=
  let len := firstFailing (fun i => d.dataBuf i ≠ 0) rxBufLen
  if len < rxBufLen then
    some { d with dataBuf := fun i => if i < len then 0 else d.dataBuf i }
  else none

/-- `frame_decode` of `network_control`. -/
def frameDecode : Machine UInt8 Decoder PortFrame := frameDecodeWith rxBufLen clearBuf

end NetInterface

end Adler.Serial
