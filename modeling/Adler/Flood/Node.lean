/-
  The two programs of the flooding test: `flood/test-flood.c` at the origin, which broadcasts the
  packages 1, 2, ..., and `flood_rx/test-flood.c` at the relays, which broadcast a package again
  when its id is above all ids they have seen.

  * `data_buf` is one buffer: a relay overwrites it with every packet it hears, also when it does
    not send that packet on. `char` is signed on this processor and `max_package_number` is not.
  * `sent` is what the current event handed to `broadcast_send`.
  * The logs in the file system, the LEDs and what is printed are left out: nothing else reads them.
-/
import Adler.Deluge.Node

namespace Adler.Flood

open Lib (Mem)
open Deluge (RimeAddr toInt8)

/-- `BUF_LEN`. -/
@[simp] abbrev bufLen : Nat := 64

/-- `MAX_PACKAGE`. -/
@[simp] abbrev maxPackage : Nat := 100

/-- The variables of both programs; `packet_count` is the origin's, `send_number` and
    `max_package_number` are a relay's. -/
structure Node where
  dataBuf : Mem
  packetCount : Nat
  sendNumber : UInt16
  maxPackageNumber : UInt8
  sent : List (List UInt8)

namespace Node

/-- The state after boot. -/
def start : Node where
  dataBuf := fun _ => 0
  packetCount := 0
  sendNumber := 0
  maxPackageNumber := 0
  sent := []

/-- A new event. -/
def begin (s : Node) : Node := { s with sent := [] }

@[simp] theorem begin_dataBuf (s : Node) : s.begin.dataBuf = s.dataBuf := rfl

@[simp] theorem begin_packetCount (s : Node) : s.begin.packetCount = s.packetCount := rfl

@[simp] theorem begin_sendNumber (s : Node) : s.begin.sendNumber = s.sendNumber := rfl

@[simp] theorem begin_maxPackageNumber (s : Node) :
    s.begin.maxPackageNumber = s.maxPackageNumber := rfl

@[simp] theorem begin_sent (s : Node) : s.begin.sent = [] := rfl

/-- `packetbuf_copyfrom(data_buf, sizeof(data_buf)); broadcast_send(&broadcast);` -/
def broadcastSend (s : Node) : Node := { s with sent := s.sent ++ [s.dataBuf.read 0 bufLen] }

end Node

/-! ## The origin -/

namespace Origin

def floodEncode (packageId : UInt8) (s : Node) : Node :=
  let buf := Function.update (Function.update (Function.update s.dataBuf 0 packageId) 1 0) 2 0
  { s with
    dataBuf := (List.range' 3 (bufLen - 3)).foldl
      (fun b i => Function.update b i (UInt8.ofNat i + b 0 - 1)) buf }

/-- The body of the loop of `test_flood_process`, once a second. -/
def timer (s : Node) : Node :=
  if s.packetCount < maxPackage then
    let s := { s with packetCount := s.packetCount + 1 }
    (floodEncode (UInt8.ofNat s.packetCount) s).broadcastSend
  else s

/-- `broadcast_recv` of the origin only prints. -/
def broadcastRecv (_sender : RimeAddr) (_data : List UInt8) (s : Node) : Node := s

/-- The loop of `flood_encode` fills the bytes from 3 on and keeps those before. -/
theorem foldl_payload (n : Nat) (b : Mem) (i : Nat) :
    (List.range' 3 n).foldl (fun b i => Function.update b i (UInt8.ofNat i + b 0 - 1)) b i =
      if 3 ≤ i ∧ i < 3 + n then UInt8.ofNat i + b 0 - 1 else b i := by
  induction n generalizing i with
  | zero =>
    rw [if_neg (by omega)]
    rfl
  | succ n ih =>
    rw [List.range'_concat, List.foldl_append, List.foldl_cons, List.foldl_nil, ih 0,
      if_neg (by omega), Nat.one_mul]
    by_cases hi : i = 3 + n
    · subst hi
      rw [Function.update_self, if_pos (by omega)]
    · rw [Function.update_of_ne hi, ih i]
      by_cases hlt : 3 ≤ i ∧ i < 3 + n
      · rw [if_pos hlt, if_pos (by omega)]
      · rw [if_neg hlt, if_neg (by omega)]

/-- The byte of the payload at `i` of the package with this id. -/
def payload (packageId : UInt8) (i : Nat) : UInt8 := UInt8.ofNat i + packageId - 1

/-- The packet that carries this package at first. -/
def packet (packageId : UInt8) : List UInt8 :=
  Mem.read (fun i => if i = 0 then packageId else if i < 3 then 0 else payload packageId i) 0 bufLen

theorem length_packet (packageId : UInt8) : (packet packageId).length = bufLen :=
  Mem.length_read _ _ _

theorem getD_packet (packageId : UInt8) {i : Nat} (hi : i < bufLen) :
    (packet packageId).getD i 0 =
      if i = 0 then packageId else if i < 3 then 0 else payload packageId i := by
  unfold packet
  rw [Mem.getD_read _ _ _ _ hi, Nat.zero_add]

/-- `flood_encode` leaves nothing of what the buffer held before. -/
theorem read_floodEncode (packageId : UInt8) (s : Node) :
    (floodEncode packageId s).dataBuf.read 0 bufLen = packet packageId := by
  refine Mem.read_congr fun i hi => ?_
  simp only [floodEncode, payload, Nat.zero_add]
  rw [foldl_payload]
  rcases i with _ | _ | _ | i
  · rfl
  · rfl
  · rfl
  · rw [if_pos ⟨Nat.le_add_left 3 i, hi⟩, if_neg (by omega), if_neg (by omega)]
    rfl

/-- The next package goes out while there are any left. -/
theorem timer_cases (s : Node) : timer s = s ∨
    s.packetCount < maxPackage ∧ (timer s).packetCount = s.packetCount + 1 ∧
      (timer s).sent = s.sent ++ [packet (UInt8.ofNat (s.packetCount + 1))] := by
  unfold timer
  split
  · rename_i hlt
    refine .inr ⟨hlt, rfl, ?_⟩
    rw [← read_floodEncode _ { s with packetCount := s.packetCount + 1 }]
    rfl
  · exact .inl rfl

end Origin

/-! ## A relay -/

namespace Relay

/-- The block that sends a new package on. -/
def resend (sender : RimeAddr) (s : Node) : Node :=
  let buf := Function.update s.dataBuf 1 sender.toUInt8
  Node.broadcastSend { s with
    maxPackageNumber := s.dataBuf 0
    dataBuf := Function.update buf 2 (buf 2 + 1)
    sendNumber := s.sendNumber + 1 }

def broadcastRecv (sender : RimeAddr) (data : List UInt8) (s : Node) : Node :=
  let s := { s with dataBuf := s.dataBuf.copy 0 data }
  if toInt8 (s.dataBuf 0).toNat > s.maxPackageNumber.toNat then resend sender s else s

/-- What a relay sends on for a packet with this content. -/
def resent (sender : RimeAddr) (buf : Mem) : List UInt8 :=
  Mem.read (Function.update (Function.update buf 1 sender.toUInt8) 2 (buf 2 + 1)) 0 bufLen

/-- A package that is not new leaves the counters; a new one is sent on, once. -/
theorem broadcastRecv_cases (sender : RimeAddr) (data : List UInt8) (s : Node) :
    (broadcastRecv sender data s).sent = s.sent ∧
        (broadcastRecv sender data s).maxPackageNumber = s.maxPackageNumber ∧
        (broadcastRecv sender data s).sendNumber = s.sendNumber ∨
      s.maxPackageNumber.toNat < (s.dataBuf.copy 0 data 0).toNat ∧
        (broadcastRecv sender data s).sent = s.sent ++ [resent sender (s.dataBuf.copy 0 data)] ∧
        (broadcastRecv sender data s).maxPackageNumber = s.dataBuf.copy 0 data 0 ∧
        (broadcastRecv sender data s).sendNumber = s.sendNumber + 1 := by
  unfold broadcastRecv
  dsimp only
  split
  · rename_i hgt
    refine .inr ⟨?_, rfl, rfl, rfl⟩
    unfold toInt8 at hgt
    split at hgt <;> omega
  · exact .inl ⟨rfl, rfl, rfl⟩

/-- A package above the maximum and below 128 is new. -/
theorem broadcastRecv_new {sender : RimeAddr} {data : List UInt8} {s : Node}
    (hlow : (s.dataBuf.copy 0 data 0).toNat < 128)
    (hnew : s.maxPackageNumber.toNat < (s.dataBuf.copy 0 data 0).toNat) :
    (broadcastRecv sender data s).sent = s.sent ++ [resent sender (s.dataBuf.copy 0 data)] := by
  unfold broadcastRecv
  dsimp only
  rw [if_pos]
  · rfl
  · unfold toInt8
    rw [if_pos hlow]
    omega

/-- The bytes sent on are those heard, but for the sender and one more hop. -/
theorem getD_resent (sender : RimeAddr) (buf : Mem) {i : Nat} (hi : i < bufLen) :
    (resent sender buf).getD i 0 =
      if i = 1 then sender.toUInt8 else if i = 2 then buf 2 + 1 else buf i := by
  unfold resent
  rw [Mem.getD_read _ _ _ _ hi, Nat.zero_add]
  by_cases h2 : i = 2
  · subst h2
    rfl
  · rw [Function.update_of_ne h2, if_neg h2]
    by_cases h1 : i = 1
    · rw [h1, Function.update_self, if_pos rfl]
    · rw [Function.update_of_ne h1, if_neg h1]

end Relay

end Adler.Flood
