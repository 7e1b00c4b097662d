/-
  The messages of the gathering test and the file the sink keeps of them:
  `gather_construct_message` and `gather_message_record` of `gathering_sink/gather_msg.c`.

  * `GatherDataMsg.bytes`: the message in a packet, 42 bytes without padding on the 16-bit target.
  * `gatherMessageRecord`: `none` is a read behind the packet or a write behind `buf`.
  * `gatherMessageRecord_eq`: what it does with any packet.
  * `record_safe_iff`: it stays inside the packet and `buf` exactly when the packet has 42 bytes and
    the numbers on the line have at most 108 digits. Those of `gather_construct_message` do, and are
    read back from the line.
-/
import Adler.Lib.Decimal
import Adler.Lib.Words

namespace Adler.Gather

open Lib (digits leBytes leNat length_toDigits numbers numbers_cons numbers_toDigits words)

/-- `sizeof(buf)`. -/
@[simp] abbrev bufLen : Nat := 128

structure GatherDataMsg where
  nodeId : UInt16
  packageId : UInt16
  clock : UInt16
  cpu : UInt32
  lpm : UInt32
  transmit : UInt32
  listen : UInt32
  sensors : Vector UInt16 10

namespace GatherDataMsg

def ids (msg : GatherDataMsg) : List Nat :=
  [msg.nodeId.toNat, msg.packageId.toNat, msg.clock.toNat]

def energy (msg : GatherDataMsg) : List Nat :=
  [msg.cpu.toNat, msg.lpm.toNat, msg.transmit.toNat, msg.listen.toNat]

def sensorValues (msg : GatherDataMsg) : List Nat := msg.sensors.toList.map UInt16.toNat

/-- The fields in the order of the struct. -/
def fields (msg : GatherDataMsg) : List Nat := msg.ids ++ msg.energy ++ msg.sensorValues

/-- The struct in memory. -/
def bytes (msg : GatherDataMsg) : List UInt8 :=
  msg.ids.flatMap (leBytes 2) ++ (msg.energy.flatMap (leBytes 4) ++
    msg.sensorValues.flatMap (leBytes 2))

end GatherDataMsg

/-- `gather_construct_message`, with `clock_time()`, `node_id` and the four times of `energest`. -/
def gatherConstructMessage (clockTime : UInt32) (nodeId packageId : UInt16)
    (cpu lpm transmit listen : UInt32) : GatherDataMsg where
  nodeId := nodeId
  packageId := packageId
  clock := clockTime.toUInt16
  cpu := cpu
  lpm := lpm
  transmit := transmit
  listen := listen
  sensors := .replicate 10 0

/-! ## The record -/

/-- `payload` and `buf` between two fields. -/
structure Cursor where
  payload : List UInt8
  buf : List Char

namespace Cursor

/-- `memcpy(&data, payload, size); payload += size;` -/
def get (size : Nat) (c : Cursor) : Option (Nat × Cursor) :=
  if size ≤ c.payload.length then
    some (leNat (c.payload.take size), { c with payload := c.payload.drop size })
  else none

/-- `len += sprintf(buf+len, ..)`, which ends the text with a 0. -/
def print (text : List Char) (c : Cursor) : Option Cursor :=
  if c.buf.length + text.length + 1 ≤ bufLen then some { c with buf := c.buf ++ text } else none

/-- `k` rounds of a loop over fields of this size. -/
def recordFields (size : Nat) : Nat → Cursor → Option Cursor
  | 0, c => some c
  | k + 1, c => (c.get size).bind fun r =>
    (r.2.print (' ' :: Nat.toDigits 10 r.1)).bind (recordFields size k)

end Cursor

/-- `gather_message_record`: the text it hands to `cfs_write`. -/
def gatherMessageRecord (seconds : UInt32) (payload : List UInt8) : Option (List Char) :=
  (Cursor.recordFields 2 3 ⟨payload, []⟩).bind fun c =>
    (c.recordFields 4 4).bind fun c =>
      (c.recordFields 2 10).bind fun c =>
        (c.print (' ' :: Nat.toDigits 10 seconds.toNat)).bind fun c =>
          (c.print ['\n']).map (·.buf)

/-- The numbers `gather_message_record` takes from a packet. -/
def values (payload : List UInt8) : List Nat :=
  words 2 3 payload ++ words 4 4 (payload.drop 6) ++ words 2 10 (payload.drop 22)

/-- Numbers as they are printed, a blank in front of each. -/
def text (ns : List Nat) : List Char := ns.flatMap fun n => ' ' :: Nat.toDigits 10 n

theorem text_append (ms ns : List Nat) : text (ms ++ ns) = text ms ++ text ns := List.flatMap_append

theorem text_singleton (n : Nat) : text [n] = ' ' :: Nat.toDigits 10 n := List.append_nil _

theorem length_text (ns : List Nat) : (text ns).length = ns.length + (ns.map digits).sum := by
  induction ns with
  | nil => rfl
  | cons n ns ih =>
    rw [text, List.flatMap_cons, List.length_append, ← text, ih, List.length_cons,
      length_toDigits, List.length_cons, List.map_cons, List.sum_cons]
    omega

theorem numbers_text (ns : List Nat) : numbers (text ns ++ ['\n']) = ns := by
  induction ns with
  | nil => rfl
  | cons n ns ih =>
    have hnext : ∃ c cs, text ns ++ ['\n'] = c :: cs ∧ c.isDigit = false := by
      cases ns with
      | nil => exact ⟨'\n', [], rfl, by decide⟩
      | cons m ns => exact ⟨' ', _, rfl, by decide⟩
    obtain ⟨c, cs, hcs, hc⟩ := hnext
    have hrest : numbers cs = ns := by
      rw [← numbers_cons hc, ← hcs, ih]
    rw [text, List.flatMap_cons, ← text, List.append_assoc, hcs, List.cons_append,
      numbers_cons (by decide), numbers_toDigits n hc, hrest]

namespace Cursor

theorem get_eq (size : Nat) (payload : List UInt8) (buf : List Char) :
    get size ⟨payload, buf⟩ =
      if size ≤ payload.length then
        some (leNat (payload.take size), ⟨payload.drop size, buf⟩)
      else none := rfl

theorem print_eq (line : List Char) (payload : List UInt8) (buf : List Char) :
    print line ⟨payload, buf⟩ =
      if buf.length + line.length < bufLen then some ⟨payload, buf ++ line⟩ else none := rfl

/-- A loop over fields of one size. -/
theorem recordFields_eq (size k : Nat) (payload : List UInt8) (buf : List Char)
    (h : buf.length < bufLen) :
    recordFields size k ⟨payload, buf⟩ =
      if k * size ≤ payload.length ∧
          buf.length + (text (words size k payload)).length < bufLen then
        some ⟨payload.drop (k * size), buf ++ text (words size k payload)⟩
      else none := by
  induction k generalizing payload buf with
  | zero =>
    rw [if_pos ⟨by omega, h⟩, Nat.zero_mul, List.drop_zero]
    exact congrArg some (congrArg (Cursor.mk payload) (List.append_nil _).symm)
  | succ k ih =>
    have htext : text (words size (k + 1) payload) =
        text [leNat (payload.take size)] ++ text (words size k (payload.drop size)) := by
      rw [← text_append]
      rfl
    have hmul : (k + 1) * size = size + k * size := by
      rw [Nat.succ_mul, Nat.add_comm]
    rw [htext, hmul, recordFields, get_eq, List.length_append]
    by_cases hsize : size ≤ payload.length
    · rw [if_pos hsize, Option.bind_some]
      dsimp only
      rw [← text_singleton, print_eq]
      by_cases hfit : buf.length + (text [leNat (payload.take size)]).length < bufLen
      · rw [if_pos hfit, Option.bind_some, ih _ _ (by rw [List.length_append]; exact hfit),
          List.length_append, List.length_drop, List.drop_drop, List.append_assoc]
        refine ite_congr ?_ (fun _ => rfl) (fun _ => rfl)
        apply propext
        omega
      · rw [if_neg hfit, Option.bind_none, if_neg (by omega)]
    · rw [if_neg hsize, Option.bind_none, if_neg (by omega)]

end Cursor

/-- What the sink writes for any packet. -/
theorem gatherMessageRecord_eq (seconds : UInt32) (payload : List UInt8) :
    gatherMessageRecord seconds payload =
      if 42 ≤ payload.length ∧
          (text (values payload ++ [seconds.toNat])).length + 2 ≤ bufLen then
        some (text (values payload ++ [seconds.toNat]) ++ ['\n'])
      else none := by
  generalize hline : text (values payload ++ [seconds.toNat]) = line
  rw [values, text_append, text_append, text_append] at hline
  generalize hids : text (words 2 3 payload) = ids at hline
  generalize henergy : text (words 4 4 (payload.drop 6)) = energy at hline
  generalize hsensors : text (words 2 10 (payload.drop 22)) = sensors at hline
  generalize htime : text [seconds.toNat] = time at hline
  have hlen : ids.length + energy.length + sensors.length + time.length = line.length := by
    rw [← hline, List.length_append, List.length_append, List.length_append]
  unfold gatherMessageRecord
  rw [Cursor.recordFields_eq 2 3 _ _ (by decide), hids, List.nil_append, List.length_nil]
  by_cases h1 : 3 * 2 ≤ payload.length ∧ 0 + ids.length < bufLen
  case neg => rw [if_neg h1, Option.bind_none, if_neg (by omega)]
  rw [if_pos h1, Option.bind_some, Cursor.recordFields_eq 4 4 _ _ (by omega), henergy,
    List.length_drop, List.drop_drop]
  by_cases h2 : 4 * 4 ≤ payload.length - 3 * 2 ∧ ids.length + energy.length < bufLen
  case neg => rw [if_neg h2, Option.bind_none, if_neg (by omega)]
  rw [if_pos h2, Option.bind_some,
    Cursor.recordFields_eq 2 10 _ _ (by rw [List.length_append]; exact h2.2), hsensors,
    List.length_drop, List.length_append]
  by_cases h3 : 10 * 2 ≤ payload.length - (3 * 2 + 4 * 4) ∧
      ids.length + energy.length + sensors.length < bufLen
  case neg => rw [if_neg h3, Option.bind_none, if_neg (by omega)]
  rw [if_pos h3, Option.bind_some, ← text_singleton, htime, Cursor.print_eq, List.length_append,
    List.length_append, hlen]
  by_cases h4 : line.length < bufLen
  case neg => rw [if_neg h4, Option.bind_none, if_neg (by omega)]
  rw [if_pos h4, Option.bind_some, hline, Cursor.print_eq, List.length_singleton]
  by_cases h5 : line.length + 1 < bufLen
  · rw [if_pos h5, if_pos ⟨by omega, h5⟩]
    rfl
  · rw [if_neg h5, if_neg fun h => h5 h.2]
    rfl

theorem length_values (payload : List UInt8) : (values payload).length = 17 := by
  rw [values, List.length_append, List.length_append, Lib.length_words, Lib.length_words,
    Lib.length_words]

/-- The line is as long as its digits. -/
theorem record_isSome_iff (seconds : UInt32) (payload : List UInt8) :
    (gatherMessageRecord seconds payload).isSome ↔ 42 ≤ payload.length ∧
      ((values payload ++ [seconds.toNat]).map digits).sum ≤ 108 := by
  have hlen := length_text (values payload ++ [seconds.toNat])
  have hbuf : bufLen = 128 := rfl
  rw [List.length_append, length_values, List.length_singleton] at hlen
  rw [gatherMessageRecord_eq]
  by_cases h : 42 ≤ payload.length ∧ (text (values payload ++ [seconds.toNat])).length + 2 ≤ bufLen
  · rw [if_pos h]
    exact ⟨fun _ => ⟨h.1, by omega⟩, fun _ => rfl⟩
  · rw [if_neg h]
    exact ⟨fun hnone => absurd hnone Bool.false_ne_true, fun hok => absurd ⟨hok.1, by omega⟩ h⟩

/-! ## Messages of the test -/

theorem length_sensorValues (msg : GatherDataMsg) : msg.sensorValues.length = 10 := by
  rw [GatherDataMsg.sensorValues, List.length_map, Vector.length_toList]

theorem length_bytes (msg : GatherDataMsg) : msg.bytes.length = 42 := by
  rw [GatherDataMsg.bytes, List.length_append, List.length_append, Lib.length_flatMap_leBytes,
    Lib.length_flatMap_leBytes, Lib.length_flatMap_leBytes, length_sensorValues]
  rfl

theorem ids_lt (msg : GatherDataMsg) : ∀ n ∈ msg.ids, n < 256 ^ 2 := by
  simp only [GatherDataMsg.ids, List.forall_mem_cons]
  exact ⟨msg.nodeId.toNat_lt, msg.packageId.toNat_lt, msg.clock.toNat_lt,
    fun _ h => absurd h List.not_mem_nil⟩

theorem energy_lt (msg : GatherDataMsg) : ∀ n ∈ msg.energy, n < 256 ^ 4 := by
  simp only [GatherDataMsg.energy, List.forall_mem_cons]
  exact ⟨msg.cpu.toNat_lt, msg.lpm.toNat_lt, msg.transmit.toNat_lt, msg.listen.toNat_lt,
    fun _ h => absurd h List.not_mem_nil⟩

theorem sensorValues_lt (msg : GatherDataMsg) : ∀ n ∈ msg.sensorValues, n < 256 ^ 2 := by
  intro n hn
  obtain ⟨v, -, rfl⟩ := List.mem_map.mp hn
  exact v.toNat_lt

/-- The reader and the struct agree. -/
theorem values_bytes (msg : GatherDataMsg) : values msg.bytes = msg.fields := by
  have hdrop6 : msg.bytes.drop 6 =
      msg.energy.flatMap (leBytes 4) ++ msg.sensorValues.flatMap (leBytes 2) :=
    List.drop_left' (Lib.length_flatMap_leBytes 2 msg.ids)
  have hdrop22 : msg.bytes.drop 22 = msg.sensorValues.flatMap (leBytes 2) := by
    have hsplit : msg.bytes.drop 22 = (msg.bytes.drop 6).drop 16 := by rw [List.drop_drop]
    rw [hsplit, hdrop6]
    exact List.drop_left' (Lib.length_flatMap_leBytes 4 msg.energy)
  have h1 : words 2 3 msg.bytes = msg.ids := Lib.words_append (ids_lt msg) _
  have h2 : words 4 4 (msg.bytes.drop 6) = msg.energy := by
    rw [hdrop6]
    exact Lib.words_append (energy_lt msg) _
  have h3 : words 2 10 (msg.bytes.drop 22) = msg.sensorValues := by
    rw [hdrop22, ← length_sensorValues msg]
    have hwords := Lib.words_append (sensorValues_lt msg) []
    rw [List.append_nil] at hwords
    exact hwords
  rw [values, h1, h2, h3, GatherDataMsg.fields]

/-- At most five digits for each of the three ids, ten for each of the four times and for the clock
    of the sink, and one for each sensor. -/
theorem digits_construct (clockTime : UInt32) (nodeId packageId : UInt16)
    (cpu lpm transmit listen seconds : UInt32) :
    (((gatherConstructMessage clockTime nodeId packageId cpu lpm transmit listen).fields ++
      [seconds.toNat]).map digits).sum ≤ 75 := by
  generalize hmsg : gatherConstructMessage clockTime nodeId packageId cpu lpm transmit listen = msg
  have hzero : ∀ n ∈ msg.sensorValues, n < 10 ^ 1 := by
    intro n hn
    obtain ⟨v, hv, rfl⟩ := List.mem_map.mp hn
    rw [← hmsg] at hv
    rw [(List.mem_replicate.mp hv).2]
    decide
  have hids : (msg.ids.map digits).sum ≤ 3 * 5 :=
    Lib.sum_digits_le (by decide) fun n hn => Nat.lt_trans (ids_lt msg n hn) (by decide)
  have henergy : (msg.energy.map digits).sum ≤ 4 * 10 :=
    Lib.sum_digits_le (by decide) fun n hn => Nat.lt_trans (energy_lt msg n hn) (by decide)
  have hsensors : (msg.sensorValues.map digits).sum ≤ msg.sensorValues.length * 1 :=
    Lib.sum_digits_le (by decide) hzero
  have hseconds : digits seconds.toNat ≤ 10 :=
    Lib.digits_le (by decide) (Nat.lt_trans seconds.toNat_lt (by decide))
  rw [length_sensorValues] at hsensors
  rw [GatherDataMsg.fields, List.map_append, List.map_append, List.map_append, List.sum_append,
    List.sum_append, List.sum_append, List.map_singleton, List.sum_singleton]
  omega

/-- **A record of a gathered message.** For any packet it stays inside the packet and `buf` exactly
    when the packet has all fields and the numbers on the line have at most 108 digits. What
    `gather_construct_message` makes is recorded, and read back from the line. -/
theorem record_safe_iff (seconds : UInt32) (payload : List UInt8) (clockTime : UInt32)
    (nodeId packageId : UInt16) (cpu lpm transmit listen : UInt32) :
    ((gatherMessageRecord seconds payload).isSome ↔
      42 ≤ payload.length ∧ ((values payload ++ [seconds.toNat]).map digits).sum ≤ 108) ∧
    ∃ line, gatherMessageRecord seconds (gatherConstructMessage clockTime nodeId packageId cpu lpm
        transmit listen).bytes = some line ∧
      numbers line = (gatherConstructMessage clockTime nodeId packageId cpu lpm transmit
        listen).fields ++ [seconds.toNat] := by
  refine ⟨record_isSome_iff seconds payload, ?_⟩
  generalize hmsg : gatherConstructMessage clockTime nodeId packageId cpu lpm transmit listen = msg
  have hdigits := digits_construct clockTime nodeId packageId cpu lpm transmit listen seconds
  rw [hmsg] at hdigits
  have hlen := length_text (values msg.bytes ++ [seconds.toNat])
  rw [List.length_append, length_values, List.length_singleton, values_bytes] at hlen
  refine ⟨text (msg.fields ++ [seconds.toNat]) ++ ['\n'], ?_, numbers_text _⟩
  rw [gatherMessageRecord_eq, values_bytes, if_pos]
  refine ⟨Nat.le_of_eq (length_bytes msg).symm, ?_⟩
  show (text (msg.fields ++ [seconds.toNat])).length + 2 ≤ 128
  omega

/-- An empty packet, and one of the largest numbers 1000 seconds after boot. -/
theorem record_unsafe : (gatherMessageRecord 0 []).isSome = false ∧
    (gatherMessageRecord 1000 (List.replicate 42 0xFF)).isSome = false := by
  decide +kernel

end Adler.Gather
