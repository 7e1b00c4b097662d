/-
  The serial line driver of Contiki on the gateway: `core/lib/ringbuf.c`, `core/dev/serial-line.c` and
  the loop of `ez240_uart_process` that hands the lines to `frame_decode`.

  Bytes come in at any time (`serial_line_input_byte` runs in the receive interrupt), the driver
  process takes them out of the ring one by one, and while it waits for `PROCESS_EVENT_CONTINUE` the
  processes handle the line it posted. `LineStep` is one of these three steps.

  * `Ringbuf.contents`: the ring as a queue; `contents_put`, `contents_get`.
  * `none` is an access outside `buf`.
-/
import Adler.Serial.RoundTrip
import Mathlib.Data.List.TakeWhile

namespace Adler.Serial

open Lib (Mem Machine)

/-! ## The ring buffer -/

/-- `struct ringbuf`. -/
structure Ringbuf where
  data : Mem
  mask : UInt8
  putPtr : UInt8
  getPtr : UInt8

namespace Ringbuf

/-- `ringbuf_init`. -/
def init (data : Mem) (size : UInt8) : Ringbuf := ⟨data, size - 1, 0, 0⟩

/-- `ringbuf_elements`. -/
def elements (r : Ringbuf) : UInt8 := (r.putPtr - r.getPtr) &&& r.mask

/-- `ringbuf_put`, undefined where it returns 0. -/
def put (c : UInt8) (r : Ringbuf) : Option Ringbuf :=
  if r.elements = r.mask then none
  else some { r with
    data := Function.update r.data r.putPtr.toNat c
    putPtr := (r.putPtr + 1) &&& r.mask }

/-- `ringbuf_get`, undefined where it returns -1. -/
def get (r : Ringbuf) : Option (UInt8 × Ringbuf) :=
  if 0 < r.elements then
    some (r.data r.getPtr.toNat, { r with getPtr := (r.getPtr + 1) &&& r.mask })
  else none

/-- The bytes in the ring, the next one to get first. -/
def contents (r : Ringbuf) : List UInt8 :=
  (List.range r.elements.toNat).map fun i => r.data ((r.getPtr.toNat + i) % 128)

/-- A ring of 128 bytes. -/
structure Ok (r : Ringbuf) : Prop where
  mask : r.mask = 127
  putPtr : r.putPtr.toNat < 128
  getPtr : r.getPtr.toNat < 128

theorem toNat_and_mask (x : UInt8) : (x &&& 127).toNat = x.toNat % 128 := by
  rw [UInt8.toNat_and]
  exact Nat.and_two_pow_sub_one_eq_mod x.toNat 7

theorem toNat_next (x : UInt8) : ((x + 1) &&& 127).toNat = (x.toNat + 1) % 128 := by
  rw [toNat_and_mask, UInt8.toNat_add]
  show (x.toNat + 1) % 256 % 128 = _
  omega

theorem toNat_elements {r : Ringbuf} (h : r.Ok) :
    r.elements.toNat = (128 + r.putPtr.toNat - r.getPtr.toNat) % 128 := by
  have hput := h.putPtr
  have hget := h.getPtr
  rw [elements, h.mask, toNat_and_mask, UInt8.toNat_sub]
  show (256 - r.getPtr.toNat + r.putPtr.toNat) % 256 % 128 = _
  omega

theorem ok_init (data : Mem) : (init data 128).Ok :=
  ⟨rfl, Nat.succ_pos _, Nat.succ_pos _⟩

theorem contents_init (data : Mem) : (init data 128).contents = [] := by
  have h : (init data 128).elements = 0 := by
    show (0 - 0 : UInt8) &&& (128 - 1) = 0
    decide
  rw [contents, h]
  rfl

@[simp] theorem length_contents (r : Ringbuf) : r.contents.length = r.elements.toNat := by
  simp [contents]

/-- A ring with fewer than 127 bytes takes another. -/
theorem contents_put {r : Ringbuf} (h : r.Ok) (hlen : r.contents.length < 127) (c : UInt8) :
    ∃ r', r.put c = some r' ∧ r'.Ok ∧ r'.contents = r.contents ++ [c] := by
  have hput := h.putPtr
  have hget := h.getPtr
  have hel := toNat_elements h
  rw [length_contents] at hlen
  have hroom : ¬ r.elements = r.mask := by
    intro heq
    rw [heq, h.mask] at hlen
    exact absurd hlen (by decide)
  have hnext := toNat_next r.putPtr
  have hok : ({ r with
      data := Function.update r.data r.putPtr.toNat c
      putPtr := (r.putPtr + 1) &&& r.mask } : Ringbuf).Ok := by
    refine ⟨h.mask, ?_, hget⟩
    show ((r.putPtr + 1) &&& r.mask).toNat < 128
    rw [h.mask, hnext]
    omega
  refine ⟨_, if_neg hroom, hok, ?_⟩
  have hel' := toNat_elements hok
  simp only [h.mask, hnext] at hel'
  have hone : (128 + (r.putPtr.toNat + 1) % 128 - r.getPtr.toNat) % 128 = r.elements.toNat + 1 := by
    omega
  simp only [contents, h.mask, hel', hone, List.range_succ, List.map_append, List.map_cons,
    List.map_nil]
  refine congr (congrArg _ (List.map_congr_left ?_)) ?_
  · intro i hi
    have hlt : i < r.elements.toNat := List.mem_range.mp hi
    exact Function.update_of_ne (by omega) _ _
  · have hat : (r.getPtr.toNat + r.elements.toNat) % 128 = r.putPtr.toNat := by omega
    rw [hat, Function.update_self]

/-- The byte that has been in the ring the longest is the next one out. -/
theorem contents_get {r : Ringbuf} (h : r.Ok) {c : UInt8} {cs : List UInt8}
    (hcs : r.contents = c :: cs) :
    ∃ r', r.get = some (c, r') ∧ r'.Ok ∧ r'.contents = cs := by
  have hput := h.putPtr
  have hget := h.getPtr
  have hel := toNat_elements h
  have hnext := toNat_next r.getPtr
  have hpos : r.elements.toNat = cs.length + 1 := by
    rw [← length_contents, hcs, List.length_cons]
  have hok : ({ r with getPtr := (r.getPtr + 1) &&& r.mask } : Ringbuf).Ok := by
    refine ⟨h.mask, hput, ?_⟩
    show ((r.getPtr + 1) &&& r.mask).toNat < 128
    rw [h.mask, hnext]
    omega
  have hel' := toNat_elements hok
  simp only [h.mask, hnext] at hel'
  have hone : (128 + r.putPtr.toNat - (r.getPtr.toNat + 1) % 128) % 128 = cs.length := by omega
  rw [contents, hpos, List.range_succ_eq_map, List.map_cons, List.map_map, List.cons.injEq] at hcs
  obtain ⟨hc, hrest⟩ := hcs
  have hsome : 0 < r.elements := by
    rw [UInt8.lt_iff_toNat_lt, hpos]
    exact Nat.succ_pos _
  have hhead : r.data r.getPtr.toNat = c := by
    rw [← hc, Nat.add_zero, Nat.mod_eq_of_lt hget]
  refine ⟨_, by rw [get, if_pos hsome, hhead], hok, ?_⟩
  rw [← hrest]
  simp only [contents, h.mask, hel', hone]
  apply List.map_congr_left
  intro i _
  show r.data ((((r.getPtr + 1) &&& 127).toNat + i) % 128) = r.data ((r.getPtr.toNat + (i + 1)) % 128)
  rw [hnext]
  congr 1
  omega

theorem get_none {r : Ringbuf} (h : r.contents = []) : r.get = none := by
  have hzero : r.elements.toNat = 0 := by rw [← length_contents, h, List.length_nil]
  refine if_neg ?_
  rw [UInt8.lt_iff_toNat_lt, hzero]
  exact Nat.lt_irrefl 0

end Ringbuf

/-! ## The line driver -/

/-- `BUFSIZE`. -/
@[simp] abbrev bufsize : Nat := 128

/-- `END`. -/
@[simp] abbrev lineEnd : UInt8 := 0x0a

/-- `IGNORE_CHAR`. -/
def ignoreChar (c : UInt8) : Bool := c = 0x0d

/-- The static variables of `serial-line.c`. `waiting` is the process between its posts and
    `PROCESS_EVENT_CONTINUE`. -/
structure SerialLine where
  rxbuf : Ringbuf
  overflow : Bool
  buf : Mem
  ptr : Nat
  waiting : Bool

namespace SerialLine

/-- `serial_line_init`. -/
def init : SerialLine := ⟨.init (fun _ => 0) 128, false, fun _ => 0, 0, false⟩

/-- `serial_line_input_byte`. -/
def inputByte (c : UInt8) (s : SerialLine) : SerialLine :=
  if ignoreChar c then s
  else if !s.overflow then
    match s.rxbuf.put c with
    | none => { s with overflow := true }
    | some r => { s with rxbuf := r }
  else if c = lineEnd then
    match s.rxbuf.put c with
    | none => s
    | some r => { s with rxbuf := r, overflow := false }
  else s

/-- One round of the loop of `serial_line_process`. Nothing happens while the process waits or the
    ring is empty. -/
def processRound (s : SerialLine) : Option SerialLine :=
  if s.waiting then some s
  else match s.rxbuf.get with
    | none => some s
    | some (c, r) =>
      if c ≠ lineEnd then
        if s.ptr < bufsize - 1 then
          some { s with rxbuf := r, buf := Function.update s.buf s.ptr c, ptr := s.ptr + 1 }
        else some { s with rxbuf := r }
      else if s.ptr < bufsize then
        some { s with
          rxbuf := r
          buf := Function.update s.buf s.ptr 0
          ptr := s.ptr + 1
          waiting := true }
      else none

/-- `PROCESS_EVENT_CONTINUE`. -/
def resume (s : SerialLine) : SerialLine := { s with ptr := 0, waiting := false }

end SerialLine

/-- The string in a buffer: the bytes before the first NUL. -/
def cString (rxdata : List UInt8) : Option (List UInt8) :=
  let s := rxdata.takeWhile (· ≠ 0)
  if s.length < rxdata.length then some s else none

/-- What `ez240_uart_process` does with a line. -/
def ez240UartProcess : Machine (List UInt8) Decoder PortFrame := fun rxdata d =>
  (cString rxdata).bind fun s => SerialThread.frameDecode.feed s d

/-- What the decoder is given of a line. -/
def cut (l : List UInt8) : List UInt8 := l.takeWhile (· ≠ 0)

theorem length_cut_le (l : List UInt8) : (cut l).length ≤ l.length :=
  (List.takeWhile_sublist _).length_le

theorem cut_eq_self {l : List UInt8} (h : 0 ∉ l) : cut l = l := by
  apply List.takeWhile_eq_self_iff.mpr
  intro c hc
  exact decide_eq_true fun h0 => h (h0 ▸ hc)

theorem ez240UartProcess_eq (l rest : List UInt8) (d : Decoder) :
    ez240UartProcess (l ++ 0 :: rest) d = SerialThread.frameDecode.feed (cut l) d := by
  have hcut : (l ++ 0 :: rest).takeWhile (· ≠ 0) = cut l := by
    rw [List.takeWhile_append]
    split
    · rename_i hall
      rw [List.takeWhile_cons_of_neg (by simp), List.append_nil]
      exact ((List.takeWhile_sublist _).eq_of_length hall).symm
    · rfl
  have hlen := length_cut_le l
  rw [ez240UartProcess, cString]
  simp only [hcut]
  rw [if_pos (by rw [List.length_append, List.length_cons]; omega)]
  rfl

/-! ## The gateway's end of the line -/

/-- The driver, the decoder and the frames it has delivered. -/
structure Gateway where
  line : SerialLine
  decoder : Decoder
  delivered : List PortFrame

/-- A byte comes in, the driver process takes a round, or the processes handle the posted line. -/
inductive LineStep where
  | byte (c : UInt8)
  | round
  | event
deriving DecidableEq

namespace Gateway

/-- Nothing received. -/
def init : Gateway := ⟨.init, .start, []⟩

def step (a : LineStep) (g : Gateway) : Option Gateway :=
  match a with
  | .byte c => some { g with line := g.line.inputByte c }
  | .round => g.line.processRound.map fun s => { g with line := s }
  | .event =>
    if g.line.waiting then
      (ez240UartProcess (g.line.buf.read 0 bufsize) g.decoder).map fun r =>
        { line := g.line.resume, decoder := r.1, delivered := g.delivered ++ r.2 }
    else some g

/-- The ring is empty and no line is being handled. -/
def Idle (g : Gateway) : Prop := g.line.rxbuf.contents = [] ∧ g.line.waiting = false

end Gateway

/-- The bytes that came in during a run. -/
def received (steps : List LineStep) : List UInt8 :=
  steps.filterMap fun
    | .byte c => some c
    | _ => none

end Adler.Serial
