/-
  `chameleon-bitopt.c` and `channel.c`: the Rime header between the buffer and the packet.

  `unpack_pack`: the attributes of a channel that one node puts in front of a packet are those another
  node finds there, when the size of the header fits its byte in `struct channel`.
-/
import Adler.Net.Bitopt
import Adler.Net.Frame802154

namespace Adler.Net

open Lib Packetbuf

variable {n : ℕ}

/-- What a channel is opened for. -/
inductive Kind
  | abc | broadcast | unicast
  deriving DecidableEq

/-- `struct channel`, at the head of the connection `conn` of this kind. -/
structure Channel where
  conn : ℕ
  channelno : UInt16
  attrlist : Attrlist
  hdrsize : UInt8
  kind : Kind

/-- How many bytes the attributes take: `hdrsize / 8 + ((hdrsize & 7) == 0 ? 0 : 1)`. -/
def Channel.hdrbytesize (c : Channel) : ℕ :=
  c.hdrsize.toNat / 8 + if c.hdrsize &&& 7 = 0 then 0 else 1

/-- `channel_lookup` -/
def channelLookup (channelno : UInt16) (cs : List Channel) : Option Channel :=
  cs.find? fun c => c.channelno == channelno

/-- `pack_header` -/
def packHeader (c : Channel) (b : Packetbuf n) : Option (Packetbuf n) :=
  match b.hdralloc (c.hdrbytesize + 2) with
  | none => none
  | some b =>
    let m := Function.update b.mem b.hdrptr c.channelno.toUInt8
    let m := Function.update m (b.hdrptr + 1) (c.channelno >>> 8).toUInt8
    let m := Mem.copy m (b.hdrptr + 2) (List.replicate c.hdrbytesize 0)
    some { b with mem := (packAttrs b (b.hdrptr + 2) c.attrlist (m, 0)).1 }

/-- `unpack_header`; `stack` is what an address on the stack held before. -/
def unpackHeader (cs : List Channel) (stack : Mem) (b : Packetbuf n) : Option Channel × Packetbuf n :=
  let hdr := b.dataptr
  match b.hdrreduce 2 with
  | none => (none, b)
  | some b =>
    match channelLookup ((b.mem (hdr + 1)).toUInt16 <<< 8 + (b.mem hdr).toUInt16) cs with
    | none => (none, b)
    | some c =>
      let hdrptr := b.dataptr
      match b.hdrreduce c.hdrbytesize with
      | none => (none, b)
      | some b => (some c, (unpackAttrs stack hdrptr c.attrlist (b, 0)).1)

/-- The channel has room in its header for its attributes. -/
def Channel.Sized (c : Channel) : Prop := c.hdrsize.toNat = headerSize c.attrlist

theorem headerSize_le {c : Channel} (h : c.Sized) : headerSize c.attrlist ≤ 8 * c.hdrbytesize := by
  unfold Channel.hdrbytesize
  rw [← show c.hdrsize.toNat = _ from h]
  have hmod : (c.hdrsize &&& 7).toNat = c.hdrsize.toNat % 8 := by
    rw [UInt8.toNat_and]
    exact Nat.and_two_pow_sub_one_eq_mod _ 3
  split
  · rename_i h0
    rw [h0] at hmod
    have : c.hdrsize.toNat % 8 = 0 := hmod.symm
    omega
  · omega

/-- What `pack_header` writes, byte by byte. -/
theorem packAttrs_frame (hn : 0 < n) {b : Packetbuf n} {c : Channel} (hc : c.Sized)
    (ha : ∀ e ∈ c.attrlist, Packable b e) {m : Mem} (hdrptr : ℕ)
    (hzero : ∀ i < c.hdrbytesize, m (hdrptr + i) = 0) :
    Stored (val b) (packAttrs b hdrptr c.attrlist (m, 0)).1 (8 * hdrptr) c.attrlist ∧
      ∀ i, i < hdrptr ∨ hdrptr + c.hdrbytesize ≤ i →
        (packAttrs b hdrptr c.attrlist (m, 0)).1 i = m i := by
  have hle := headerSize_le hc
  obtain ⟨hstored, hframe⟩ := pack_fields hn hdrptr m 0 ha (by
    intro k h1 h2
    refine Mem.bit_of_zero ?_
    have := hzero (k / 8 - hdrptr) (by omega)
    rwa [show hdrptr + (k / 8 - hdrptr) = k / 8 by omega] at this)
  refine ⟨hstored, fun i hi => Mem.byte_ext fun j hj => ?_⟩
  have hbit := hframe (8 * i + (7 - j)) (by omega)
  rwa [Mem.bit_mul_add _ _ (by omega), Mem.bit_mul_add _ _ (by omega),
    show 7 - (7 - j) = j by omega] at hbit

/-- The bytes stand for the attributes of the channel, wherever they are. -/
structure Encodes (c : Channel) (b : Packetbuf n) (hdr : List UInt8) : Prop where
  length : hdr.length = c.hdrbytesize
  stored : ∀ (m : Mem) (p : ℕ), m.Holds p hdr → Stored (val b) m (8 * p) c.attrlist

/-- The header of the channel is put in front of the packet, when there is room for it. -/
theorem pack_spec (hn : 0 < n) {c : Channel} (hc : c.Sized) {b : Packetbuf n} (h : b.Ok)
    (ha : ∀ e ∈ c.attrlist, Packable b e) (hr : b.Room (c.hdrbytesize + 2)) :
    ∃ b' hdr, packHeader c b = some b' ∧ Encodes c b hdr ∧ b'.Ok ∧
      b'.header = pidBytes c.channelno ++ hdr ++ b.header ∧ b'.data = b.data ∧
      b'.attrs = b.attrs ∧ b'.addrs = b.addrs := by
  rcases hdralloc_eq h (c.hdrbytesize + 2) with ⟨-, hno⟩ | ⟨hsome, -, hle⟩
  · exact absurd hr hno
  have hhdr : b.hdrptr ≤ 48 := h.hdr
  have hle8 := headerSize_le hc
  obtain ⟨ptr, hptr⟩ : ∃ ptr, b.hdrptr - (c.hdrbytesize + 2) = ptr := ⟨_, rfl⟩
  obtain ⟨m0, hm0⟩ : ∃ m0, Mem.copy
      (Function.update (Function.update b.mem ptr c.channelno.toUInt8) (ptr + 1)
        (c.channelno >>> 8).toUInt8) (ptr + 2) (List.replicate c.hdrbytesize 0) = m0 := ⟨_, rfl⟩
  -- the attributes go where the zeros are
  obtain ⟨hstored, hframe⟩ := packAttrs_frame hn hc (b := { b with hdrptr := ptr }) (m := m0)
    (fun e he => by
      have := ha e he
      obtain ⟨type | type, len⟩ := e <;> exact this) (ptr + 2)
    (fun i hi => by
      rw [← hm0, Mem.copy_of_mem _ _ _ (by omega) (by rw [List.length_replicate]; omega)]
      simp [List.getD_eq_getElem?_getD])
  obtain ⟨m1, hm1⟩ : ∃ m1, (packAttrs { b with hdrptr := ptr } (ptr + 2) c.attrlist (m0, 0)).1 = m1 :=
    ⟨_, rfl⟩
  rw [hm1] at hstored hframe
  have hout : ∀ i, i < ptr ∨ ptr + 2 + c.hdrbytesize ≤ i → m1 i = b.mem i := by
    intro i hi
    rw [hframe i (by omega), ← hm0, Mem.copy_of_not_mem _ _ _ (by rw [List.length_replicate]; omega),
      Function.update_of_ne (by omega), Function.update_of_ne (by omega)]
  have hchan : m1.Holds ptr (pidBytes c.channelno) := by
    refine Mem.holds_cons.mpr ⟨?_, Mem.holds_cons.mpr ⟨?_, Mem.holds_nil ..⟩⟩
    · rw [hframe _ (.inl (by omega)), ← hm0, Mem.copy_of_not_mem _ _ _ (.inl (by omega)),
        Function.update_of_ne (by omega), Function.update_self]
    · rw [hframe _ (.inl (by omega)), ← hm0, Mem.copy_of_not_mem _ _ _ (.inl (by omega)),
        Function.update_self]
  have hpack : packHeader c b = some { b with hdrptr := ptr, mem := m1 } := by
    rw [packHeader, hsome]
    simp only [hptr, hm0, hm1]
  have hok : ({ b with hdrptr := ptr, mem := m1 } : Packetbuf n).Ok := by
    have h2 := hr.2
    rw [Packetbuf.length_header, length_data] at h2
    have h2 : 48 - b.hdrptr + b.buflen + (c.hdrbytesize + 2) ≤ 128 := h2
    exact ⟨show ptr ≤ 48 by omega, h.data, show 48 - ptr + b.buflen ≤ 128 by omega⟩
  refine ⟨_, Mem.read m1 (ptr + 2) c.hdrbytesize, hpack, ⟨Mem.length_read .., fun m p hholds => ?_⟩,
    hok, ?_, ?_, rfl, rfl⟩
  · refine stored_congr (m := m1) (8 * (ptr + 2)) (fun j hj => ?_) hstored
    have hbyte : m (p + j / 8) = m1 (ptr + 2 + j / 8) := by
      have hj8 : j / 8 < c.hdrbytesize := by omega
      rw [hholds.get (by rwa [Mem.length_read])]
      simp [Mem.read]
    rw [Mem.bit, Mem.bit, show (8 * p + j) / 8 = p + j / 8 by omega, hbyte,
      show (8 * (ptr + 2) + j) / 8 = ptr + 2 + j / 8 by omega,
      show (8 * p + j) % 8 = (8 * (ptr + 2) + j) % 8 by omega]
  · show Mem.read m1 ptr (48 - ptr) = _
    rw [show 48 - ptr = 2 + c.hdrbytesize + (48 - b.hdrptr) by omega, Mem.read_add, Mem.read_add,
      show Mem.read m1 ptr 2 = pidBytes c.channelno from hchan]
    congr 1
    rw [show ptr + (2 + c.hdrbytesize) = b.hdrptr by omega]
    exact Mem.read_congr fun i _ => hout _ (.inr (by omega))
  · exact Mem.read_congr fun i _ => hout _ (.inr (show _ ≤ 48 + b.bufptr + i by omega))

/-- Without room for the header there is no packet. -/
theorem pack_none (c : Channel) {b : Packetbuf n} (h : b.Ok) (hr : ¬ b.Room (c.hdrbytesize + 2)) :
    packHeader c b = none := by
  rcases hdralloc_eq h (c.hdrbytesize + 2) with ⟨hnone, -⟩ | ⟨-, hroom, -⟩
  · rw [packHeader, hnone]
  · exact absurd hroom hr

/-- The number of the channel, from the packet. -/
theorem channelno_of_data {r : Packetbuf n} {no : UInt16} {rest : List UInt8}
    (hd : r.data = pidBytes no ++ rest) :
    (r.mem (r.dataptr + 1)).toUInt16 <<< 8 + (r.mem r.dataptr).toUInt16 = no := by
  have hholds : r.mem.Holds r.dataptr (pidBytes no ++ rest) := by
    rw [Mem.Holds, ← hd, r.length_data, dataptr, Nat.add_comm]
    rfl
  rw [UInt16.add_comm]
  exact pidAt_of_holds (Mem.holds_append.mp hholds).1

/-- Under a number that no channel has, a packet is for nobody. -/
theorem unpack_none {cs : List Channel} {no : UInt16} (hl : channelLookup no cs = none) (stack : Mem)
    {r : Packetbuf n} {rest : List UInt8} (hd : r.data = pidBytes no ++ rest) :
    (unpackHeader cs stack r).1 = none := by
  have hlen : r.buflen = 2 + rest.length := by
    rw [← r.length_data, hd, List.length_append]
    rfl
  rw [unpackHeader, Packetbuf.hdrreduce, if_neg (by omega)]
  dsimp only
  rw [channelno_of_data hd, hl]

/-- The header is taken off, and the attributes in it become those of the packet. -/
theorem unpack_spec (hn : 0 < n) {c : Channel} {b : Packetbuf n} {hdr : List UInt8}
    (he : Encodes c b hdr) (ha : ∀ e ∈ c.attrlist, Packable b e) {cs : List Channel} {c' : Channel}
    (hl : channelLookup c.channelno cs = some c') (hattrs : c'.attrlist = c.attrlist)
    (hsize : c'.hdrsize = c.hdrsize) (stack : Mem) {r : Packetbuf n} (h : r.Ok) {rest : List UInt8}
    (hd : r.data = pidBytes c.channelno ++ hdr ++ rest) :
    ∃ r', r'.Ok ∧ r'.data = rest ∧ r'.attrs = r.attrs ∧ r'.addrs = r.addrs ∧
      unpackHeader cs stack r = (some c', c.attrlist.foldl (copyAttr b) r') := by
  have hbytes : c'.hdrbytesize = c.hdrbytesize := by
    unfold Channel.hdrbytesize
    rw [hsize]
  have hlen : r.buflen = 2 + c.hdrbytesize + rest.length := by
    rw [← r.length_data, hd, List.length_append, List.length_append, he.length]
    rfl
  have hholds : r.mem.Holds r.dataptr (pidBytes c.channelno ++ hdr ++ rest) := by
    rw [Mem.Holds, ← hd, r.length_data, dataptr, Nat.add_comm]
    rfl
  have hhdr := (Mem.holds_append.mp (Mem.holds_append.mp hholds).1).2
  have hno := channelno_of_data (hd.trans (List.append_assoc ..))
  obtain ⟨hred1, hok1, hdata1⟩ := hdrreduce_spec h 2 (by omega)
  obtain ⟨hred2, hok2, hdata2⟩ := hdrreduce_spec hok1 c.hdrbytesize
    (show _ ≤ r.buflen - 2 by omega)
  refine ⟨_, hok2, ?_, rfl, rfl, ?_⟩
  · rw [hdata2, hdata1, hd, List.append_assoc, show 2 = (pidBytes c.channelno).length from rfl,
      List.drop_left, ← he.length, List.drop_left]
  · rw [unpackHeader, hred1]
    dsimp only
    rw [hno, hl]
    dsimp only
    rw [hbytes, hred2, hattrs]
    dsimp only
    rw [unpack_fields hn ha]
    have hptr : 8 * (({ r with bufptr := r.bufptr + 2, buflen := r.buflen - 2 } : Packetbuf n).dataptr) + 0 =
        8 * (r.dataptr + 2) := by
      unfold dataptr
      dsimp only
      omega
    rw [hptr]
    exact he.stored _ _ hhdr

/-- The header that one node puts in front of a packet another node takes off again, wherever in its
buffer the packet arrived, and has the attributes of the channel as the first node had them. -/
theorem unpack_pack (hn : 0 < n) {c : Channel} (hc : c.Sized) {b : Packetbuf n} (h : b.Ok)
    (ha : ∀ e ∈ c.attrlist, Packable b e) {b' : Packetbuf n} (hp : packHeader c b = some b')
    {cs : List Channel} {c' : Channel} (hl : channelLookup c.channelno cs = some c')
    (hattrs : c'.attrlist = c.attrlist) (hsize : c'.hdrsize = c.hdrsize) (stack : Mem)
    {r : Packetbuf n} (hr : r.Ok) (hd : r.data = b'.header ++ b'.data) :
    ∃ r', unpackHeader cs stack r = (some c', r') ∧ r'.data = b.header ++ b.data ∧
      ∀ e ∈ c.attrlist, SameAttr b r' e.1 := by
  have hroom : b.Room (c.hdrbytesize + 2) := by
    by_contra hno
    rw [pack_none c h hno] at hp
    cases hp
  obtain ⟨b1, hdr, hpack, henc, -, hheader, hdata, -⟩ := pack_spec hn hc h ha hroom
  obtain rfl : b1 = b' := Option.some.inj (hpack.symm.trans hp)
  rw [hheader, hdata, List.append_assoc] at hd
  obtain ⟨r', -, hdata', -, -, hunpack⟩ := unpack_spec hn henc ha hl hattrs hsize stack hr hd
  refine ⟨_, hunpack, ?_, sameAttr_foldl.2⟩
  obtain ⟨hmem, -, hbufptr, hbuflen⟩ := foldl_copyAttr_frame b c.attrlist r'
  rw [← hdata']
  show Mem.read _ _ _ = Mem.read _ _ _
  rw [hmem, hbufptr, hbuflen]

/-- A channel with attributes that are no whole bytes. -/
def hopsChannel : Channel where
  conn := 0
  channelno := 130
  attrlist := [(.attr .hops, 5), (.addr .esender, 16), (.attr .epacketId, 3)]
  hdrsize := 24
  kind := .abc

/-- A packet with values for them. -/
def hopsPacket : Packetbuf 2 where
  mem := fun i => UInt8.ofNat i
  hdrptr := 48
  bufptr := 0
  buflen := 4
  attrs := fun t => if t = .hops then 19 else if t = .epacketId then 6 else 0
  addrs := fun _ i => if i = 0 then 200 else 7

theorem unpack_pack_hops : ∃ b' : Packetbuf 2, packHeader hopsChannel hopsPacket = some b' ∧
    ∃ r', unpackHeader [hopsChannel] (fun _ => 0)
      ({ hopsPacket with mem := Mem.copy (fun _ => 0) 48 (b'.header ++ b'.data), buflen := 9 }) =
        (some hopsChannel, r') ∧ r'.data = [48, 49, 50, 51] ∧ r'.attrs .hops = 19 := by
  have hok : hopsPacket.Ok := ⟨by decide, by decide, by decide⟩
  have ha : ∀ e ∈ hopsChannel.attrlist, Packable hopsPacket e := by
    intro e he
    rcases List.mem_cons.mp he with rfl | he
    · exact ⟨by decide, by decide⟩
    · rcases List.mem_cons.mp he with rfl | he
      · rfl
      · obtain rfl := List.mem_singleton.mp he
        exact ⟨by decide, by decide⟩
  obtain ⟨b', -, hpack, -⟩ := pack_spec (by decide) (c := hopsChannel) rfl hok ha
    ⟨by decide, by decide⟩
  have hlen : (b'.header ++ b'.data).length = 9 := by
    have : b' = (packHeader hopsChannel hopsPacket).get (by rw [hpack]; rfl) := by simp [hpack]
    rw [this]
    rfl
  obtain ⟨r', hunpack, hdata, hsame⟩ := unpack_pack (by decide) (c := hopsChannel) rfl hok ha hpack
    (show channelLookup hopsChannel.channelno [hopsChannel] = some hopsChannel from rfl) rfl rfl (fun _ => 0)
    (r := { hopsPacket with mem := Mem.copy (fun _ => 0) 48 (b'.header ++ b'.data), buflen := 9 })
    ⟨show 48 ≤ 48 by decide, show 0 + 9 ≤ 128 by decide, show 48 - 48 + 9 ≤ 128 by decide⟩ (by
      show Mem.read _ 48 9 = _
      rw [← hlen]
      exact Mem.read_copy_self ..)
  exact ⟨b', hpack, r', hunpack, hdata.trans (by decide), hsame _ (List.mem_cons_self ..)⟩

end Adler.Net
