/-
  One origin and any number of relays. A copy that was broadcast stays on the air (`Lib.Soup`), and
  any station may hear it at any time: runs where a topology, a loss, a duplication or another order
  decides who hears what are among these, and `ok` may restrict them further.

  A copy carries the relays it has passed, latest first (`route`). No program reads them. The
  station that hands a copy on is the head of its route, `none` being the origin.

  * `ascending`: every station sends ids in increasing order.
  * `InFlight`, `inFlight_of_reach`: what the bytes of a copy say about its route.
  * `Traced`, `traced_of_reach`: no copy passes a relay twice.
  * `flooding_bounded`: the bounds on transmissions, the hop count and the sender.
  * `exists_chain`, `hop_wraps`: a package that passes all relays in a row.
-/
import Adler.Flood.Node
import Adler.Lib.Soup
import Mathlib.Data.Fintype.Option

namespace Adler.Flood

open Lib (Mem Protocol Reach Sent)
open Lib.Protocol (Net)
open Deluge (RimeAddr)

/-- A broadcast: the address of its sender, the packet, and the relays behind it. -/
structure Copy (R : Type*) where
  sender : RimeAddr
  data : List UInt8
  route : List R

namespace Copy

variable {R : Type*}

def packageId (c : Copy R) : UInt8 := c.data.getD 0 0

def fromByte (c : Copy R) : UInt8 := c.data.getD 1 0

def hop (c : Copy R) : UInt8 := c.data.getD 2 0

end Copy

/-- A station: a relay, or the origin. -/
abbrev Station (R : Type*) := Option R

/-- A station's program, and the route of what it handles. -/
structure Party (R : Type*) where
  node : Node
  route : List R

inductive Event (R : Type*) where
  | timer
  | receive (c : Copy R)

variable {R : Type*}

/-- What the station's program does. -/
def handle : Station R → Event R → Party R → Party R
  | none, .timer, s => ⟨Origin.timer s.node.begin, []⟩
  | none, .receive c, s => ⟨Origin.broadcastRecv c.sender c.data s.node.begin, c.route⟩
  | some _, .timer, s => ⟨s.node.begin, []⟩
  | some r, .receive c, s => ⟨Relay.broadcastRecv c.sender c.data s.node.begin, r :: c.route⟩

/-- The flooding network for these addresses. -/
def flood (addr : Station R → RimeAddr) : Protocol (Station R) (Party R) (Copy R) (Event R) where
  init := fun _ s => s = ⟨Node.start, []⟩
  step := fun i e s s' => s' = handle i e s
  input := fun
    | .timer => none
    | .receive c => some c
  sent := fun i s => s.node.sent.map fun data => ⟨addr i, data, s.route⟩

/-- The highest id the station has sent. -/
def lastId : Station R → Party R → Nat
  | none, s => s.node.packetCount
  | some _, s => s.node.maxPackageNumber.toNat

variable {addr : Station R → RimeAddr}

/-- What an event makes a station send: nothing, its next package, or a new package it heard. -/
theorem handle_cases (addr : Station R → RimeAddr) (i : Station R) (e : Event R) (s : Party R) :
    ((flood addr).sent i (handle i e s) = [] ∧ lastId i (handle i e s) = lastId i s) ∨
    (i = none ∧ e = .timer ∧ s.node.packetCount < maxPackage ∧
      lastId i (handle i e s) = s.node.packetCount + 1 ∧ (flood addr).sent i (handle i e s) =
        [⟨addr none, Origin.packet (UInt8.ofNat (s.node.packetCount + 1)), []⟩]) ∨
    ∃ r c, i = some r ∧ e = .receive c ∧
      s.node.maxPackageNumber.toNat < (s.node.dataBuf.copy 0 c.data 0).toNat ∧
      lastId i (handle i e s) = (s.node.dataBuf.copy 0 c.data 0).toNat ∧
      (flood addr).sent i (handle i e s) =
        [⟨addr (some r), Relay.resent c.sender (s.node.dataBuf.copy 0 c.data), r :: c.route⟩] := by
  match i, e with
  | none, .timer =>
    obtain hsame | ⟨hlt, hcount, hsent⟩ := Origin.timer_cases s.node.begin
    · left
      simp [flood, handle, lastId, hsame]
    · right
      left
      refine ⟨rfl, rfl, hlt, hcount, ?_⟩
      simp only [flood, handle, hsent, Node.begin_sent, List.nil_append, List.map_cons, List.map_nil]
      rfl
  | none, .receive _ => exact .inl ⟨rfl, rfl⟩
  | some _, .timer => exact .inl ⟨rfl, rfl⟩
  | some r, .receive c =>
    obtain ⟨hsent, hmax, -⟩ | ⟨hlt, hsent, hmax, -⟩ :=
      Relay.broadcastRecv_cases c.sender c.data s.node.begin
    · left
      simp [flood, handle, lastId, hsent, hmax]
    · right
      right
      refine ⟨r, c, rfl, rfl, hlt, congrArg UInt8.toNat hmax, ?_⟩
      simp only [flood, handle, hsent, Node.begin_sent, List.nil_append, List.map_cons, List.map_nil]
      rfl

theorem toNat_ofNat_succ {n : Nat} (h : n < maxPackage) : (UInt8.ofNat (n + 1)).toNat = n + 1 := by
  have h : n < 100 := h
  rw [UInt8.toNat_ofNat']
  omega

/-- Every station sends a package only with an id above all its earlier ones. -/
theorem ascending : (flood addr).Ascending (fun c => c.packageId.toNat) lastId := by
  rintro i e s _ rfl
  obtain h | ⟨rfl, rfl, hlt, hlast, hsent⟩ | ⟨r, c, rfl, rfl, hlt, hlast, hsent⟩ :=
    handle_cases addr i e s
  · exact .inl h
  · refine .inr ⟨_, hsent, ?_⟩
    have hid := toNat_ofNat_succ hlt
    simp only [Copy.packageId, Origin.getD_packet _ (show 0 < bufLen by decide), if_pos]
    refine ⟨?_, ?_⟩
    · rw [hid]
      exact Nat.lt_succ_self _
    · rw [hlast, hid]
  · refine .inr ⟨_, hsent, ?_⟩
    simp only [Copy.packageId, Relay.getD_resent _ _ (show 0 < bufLen by decide), Nat.zero_ne_one,
      if_false]
    exact ⟨hlt, hlast⟩

/-! ## What a copy says about its route -/

/-- The `from` byte for a route: the first address byte of the station that the last relay heard. -/
def heardFrom (addr : Station R → RimeAddr) : List R → UInt8
  | [] => 0
  | _ :: earlier => (addr earlier.head?).toUInt8

/-- The bytes of a copy in flight. -/
structure InFlight (addr : Station R → RimeAddr) (x : Sent (Station R) (Party R) (Copy R)) :
    Prop where
  src : x.src = x.msg.route.head?
  sender : x.msg.sender = addr x.src
  length : x.msg.data.length = bufLen
  packageId : 1 ≤ x.msg.packageId.toNat ∧ x.msg.packageId.toNat ≤ maxPackage
  hop : x.msg.hop = UInt8.ofNat x.msg.route.length
  fromByte : x.msg.fromByte = heardFrom addr x.msg.route
  payload : ∀ i, 3 ≤ i → i < bufLen →
    x.msg.data.getD i 0 = Origin.payload x.msg.packageId i

/-- A packet of full length replaces the whole buffer. -/
theorem copy_packet {data : List UInt8} (h : data.length = bufLen) (buf : Mem) {i : Nat}
    (hi : i < bufLen) : buf.copy 0 data i = data.getD i 0 :=
  Mem.copy_of_mem buf 0 data (Nat.zero_le i) (by omega)

/-- A relay keeps the id of what it sends on. -/
theorem packageId_resent {c : Copy R} (h : c.data.length = bufLen) (buf : Mem) :
    (Relay.resent c.sender (buf.copy 0 c.data)).getD 0 0 = c.packageId := by
  rw [Relay.getD_resent _ _ (by decide), if_neg (by decide), if_neg (by decide),
    copy_packet h _ (by decide)]
  rfl

theorem inFlight_first {n : Nat} (h : n < maxPackage) (s : Party R) :
    InFlight addr ⟨none, s, ⟨addr none, Origin.packet (UInt8.ofNat (n + 1)), []⟩⟩ where
  src := rfl
  sender := rfl
  length := Origin.length_packet _
  packageId := by
    simp only [Copy.packageId, Origin.getD_packet _ (show 0 < bufLen by decide), if_pos]
    rw [toNat_ofNat_succ h]
    exact ⟨Nat.le_add_left 1 n, h⟩
  hop := Origin.getD_packet _ (by decide)
  fromByte := Origin.getD_packet _ (by decide)
  payload := by
    intro i h3 hi
    simp only [Copy.packageId, Origin.getD_packet _ (show 0 < bufLen by decide), if_pos]
    rw [Origin.getD_packet _ hi, if_neg (by omega), if_neg (by omega)]

/-- A relay sends a copy on with its id and payload, one more hop, and the sender it heard. -/
theorem inFlight_resent {x : Sent (Station R) (Party R) (Copy R)} (h : InFlight addr x) (r : R)
    (buf : Mem) (s : Party R) :
    InFlight addr ⟨some r, s,
      ⟨addr (some r), Relay.resent x.msg.sender (buf.copy 0 x.msg.data), r :: x.msg.route⟩⟩ := by
  refine ⟨rfl, rfl, Mem.length_read _ _ _, ?_, ?_, ?_, ?_⟩
  · simp only [Copy.packageId, packageId_resent h.length]
    exact h.packageId
  · simp only [Copy.hop]
    rw [Relay.getD_resent _ _ (by decide), if_neg (by decide), if_pos rfl,
      copy_packet h.length _ (by decide), List.length_cons, UInt8.ofNat_add]
    exact congrArg (· + 1) h.hop
  · simp only [Copy.fromByte, heardFrom]
    rw [Relay.getD_resent _ _ (by decide), if_pos rfl, h.sender, h.src]
  · intro i h3 hi
    simp only [Copy.packageId, packageId_resent h.length]
    rw [Relay.getD_resent _ _ hi, if_neg (by omega), if_neg (by omega), copy_packet h.length _ hi]
    exact h.payload i h3 hi

/-- A relay sends on what is above its maximum. -/
theorem handle_new (addr : Station R → RimeAddr) {c : Copy R} (r : R) {s : Party R}
    (h : c.data.length = bufLen) (hlow : c.packageId.toNat < 128)
    (hnew : s.node.maxPackageNumber.toNat < c.packageId.toNat) :
    (flood addr).sent (some r) (handle (some r) (.receive c) s) =
      [⟨addr (some r), Relay.resent c.sender (s.node.dataBuf.copy 0 c.data), r :: c.route⟩] := by
  have hid : s.node.begin.dataBuf.copy 0 c.data 0 = c.packageId := copy_packet h _ (by decide)
  have hsent : (Relay.broadcastRecv c.sender c.data s.node.begin).sent = _ :=
    Relay.broadcastRecv_new (by rw [hid]; exact hlow) (by rw [hid]; exact hnew)
  simp only [flood, handle, hsent, Node.begin_sent, List.nil_append, List.map_cons, List.map_nil]
  rfl

/-- Whatever a station sends is a copy in flight, when what it hears is one. -/
theorem inFlight_step {i : Station R} {e : Event R} {s : Party R}
    (hin : ∀ c, (flood addr).input e = some c → ∃ x, InFlight addr x ∧ x.msg = c) :
    ∀ m ∈ (flood addr).sent i (handle i e s), InFlight addr ⟨i, handle i e s, m⟩ := by
  intro m hm
  obtain ⟨hnone, -⟩ | ⟨rfl, rfl, hlt, -, hsent⟩ | ⟨r, c, rfl, rfl, -, -, hsent⟩ :=
    handle_cases addr i e s
  · rw [hnone] at hm
    cases hm
  · rw [hsent] at hm
    rw [List.mem_singleton.mp hm]
    exact inFlight_first hlt _
  · rw [hsent] at hm
    rw [List.mem_singleton.mp hm]
    obtain ⟨x, hx, rfl⟩ := hin c rfl
    exact inFlight_resent hx r _ _

section

variable [DecidableEq R] {ok : Station R × Event R → Net (Station R) (Party R) (Copy R) → Prop}
  {n : Net (Station R) (Party R) (Copy R)}

theorem inFlight_of_reach (h : Reach (flood addr).Init (flood addr).Step ok n) :
    ∀ x ∈ n.soup, InFlight addr x := by
  have hstep : ∀ i e s s', True → True →
      (∀ c, (flood addr).input e = some c → ∃ x, InFlight addr x ∧ x.msg = c) →
      (flood addr).step i e s s' → True ∧ ∀ m ∈ (flood addr).sent i s', InFlight addr ⟨i, s', m⟩ := by
    rintro i e s _ - - hin rfl
    exact ⟨trivial, inFlight_step hin⟩
  exact (Protocol.inv_of_reach (fun _ _ _ => trivial) (fun _ _ _ _ => trivial) hstep h).soup

/-- Where a copy comes from: its latest relay heard the same package with the rest of the route, and
    no relay of the route would send the package again. -/
structure Traced (n : Net (Station R) (Party R) (Copy R)) (c : Copy R) : Prop where
  nodup : c.route.Nodup
  seen : ∀ r ∈ c.route, c.packageId.toNat ≤ lastId (some r) (n.node (some r))
  heard : ∀ r earlier, c.route = r :: earlier →
    ∃ x ∈ n.soup, x.msg.route = earlier ∧ x.msg.packageId = c.packageId

/-- Later steps do not touch the trace of a copy. -/
theorem Traced.mono {n n' : Net (Station R) (Party R) (Copy R)} {c : Copy R} (h : Traced n c)
    {ie : Station R × Event R} (hs : (flood addr).Step ie n n') : Traced n' c where
  nodup := h.nodup
  seen := fun r hr => (h.seen r hr).trans (ascending.last_le hs (some r))
  heard := by
    intro r earlier hroute
    obtain ⟨x, hx, hxr⟩ := h.heard r earlier hroute
    obtain ⟨s', -, -, rfl⟩ := hs
    exact ⟨x, List.mem_append_left _ hx, hxr⟩

theorem traced_of_reach (h : Reach (flood addr).Init (flood addr).Step ok n) :
    ∀ x ∈ n.soup, Traced n x.msg := by
  induction h with
  | init h0 =>
    intro x hx
    rw [h0.2] at hx
    cases hx
  | @step n n' ie hr _ hs ih =>
    have hkept : ∀ x ∈ n.soup, Traced n' x.msg := fun x hx => (ih x hx).mono hs
    obtain ⟨i, e⟩ := ie
    obtain ⟨_, rfl, hin, rfl⟩ := hs
    intro x hx
    rcases List.mem_append.mp hx with hx | hx
    · exact hkept x hx
    obtain ⟨c', hc', rfl⟩ := List.mem_map.mp hx
    obtain ⟨hnone, -⟩ | ⟨rfl, rfl, -, -, hsent⟩ | ⟨r, c, rfl, rfl, hlt, hlast, hsent⟩ :=
      handle_cases addr i e (n.node i)
    · rw [hnone] at hc'
      cases hc'
    · rw [hsent] at hc'
      rw [List.mem_singleton.mp hc']
      exact ⟨List.nodup_nil, fun r hr => (List.not_mem_nil hr).elim, fun r earlier h => nomatch h⟩
    · rw [hsent] at hc'
      rw [List.mem_singleton.mp hc']
      obtain ⟨y, hy, rfl⟩ := hin c rfl
      have hlen := (inFlight_of_reach hr y hy).length
      have hid := packageId_resent hlen (n.node (some r)).node.dataBuf
      rw [copy_packet hlen _ (by decide)] at hlt hlast
      refine ⟨List.nodup_cons.mpr ⟨?_, (ih y hy).nodup⟩, ?_, ?_⟩
      · -- a relay of the route has seen the package, so it would not be new
        intro hmem
        exact absurd hlt (Nat.not_lt.mpr ((ih y hy).seen r hmem))
      · intro r' hr'
        simp only [Copy.packageId, hid]
        rcases List.mem_cons.mp hr' with rfl | hr'
        · simp only [Function.update_self, hlast]
          rfl
        · exact (hkept y hy).seen r' hr'
      · intro r' earlier hroute
        obtain ⟨-, rfl⟩ := List.cons.inj hroute
        exact ⟨y, List.mem_append_left _ hy, rfl, hid.symm⟩

/-- The network after an event at a station. -/
def after (addr : Station R → RimeAddr) (i : Station R) (e : Event R)
    (n : Net (Station R) (Party R) (Copy R)) : Net (Station R) (Party R) (Copy R) :=
  ⟨Function.update n.node i (handle i e (n.node i)),
    n.soup ++ (flood addr).emit i (handle i e (n.node i))⟩

theorem reach_after (h : Reach (flood addr).Init (flood addr).Step Lib.Always n) (i : Station R)
    {e : Event R} (hin : ∀ c, (flood addr).input e = some c → ∃ x ∈ n.soup, x.msg = c) :
    Reach (flood addr).Init (flood addr).Step Lib.Always (after addr i e n) :=
  .step (a := (i, e)) h trivial ⟨_, rfl, hin, rfl⟩

/-- The origin has address 1, the relays those from 2 on. -/
def rowAddr {N : Nat} : Station (Fin N) → RimeAddr
  | none => 1
  | some r => UInt16.ofNat (r + 2)

/-- Relays in a row: the package can have passed `k` of them, and no other. -/
theorem exists_chain {N : Nat} (addr : Station (Fin N) → RimeAddr) (k : Nat) (hk : k ≤ N) :
    ∃ n, Reach (flood addr).Init (flood addr).Step Lib.Always n ∧
      (∀ r : Fin N, k ≤ r → (n.node (some r)).node.maxPackageNumber = 0) ∧
      ∃ x ∈ n.soup, x.msg.packageId = 1 ∧ x.msg.route.length = k := by
  induction k with
  | zero =>
    have hboot : Reach (flood addr).Init (flood addr).Step Lib.Always
        ⟨fun _ => ⟨Node.start, []⟩, []⟩ := .init ⟨fun _ => rfl, rfl⟩
    exact ⟨_, reach_after hboot none (e := .timer) (fun c hc => nomatch hc), fun _ _ => rfl, _,
      List.mem_singleton_self _, rfl, rfl⟩
  | succ k ih =>
    obtain ⟨n, hn, hfresh, x, hx, hid, hlen⟩ := ih (by omega)
    have hflight := inFlight_of_reach hn x hx
    let r : Fin N := ⟨k, hk⟩
    have hsent := handle_new addr r (s := n.node (some r)) hflight.length
      (by rw [hid]; decide) (by rw [hid, hfresh r (Nat.le_refl k)]; decide)
    have hheard : ∀ c, (flood addr).input (.receive x.msg) = some c →
        ∃ y ∈ n.soup, y.msg = c := by
      rintro _ ⟨⟩
      exact ⟨x, hx, rfl⟩
    have hmem : (⟨some r, handle (some r) (.receive x.msg) (n.node (some r)), ⟨addr (some r),
        Relay.resent x.msg.sender ((n.node (some r)).node.dataBuf.copy 0 x.msg.data),
        r :: x.msg.route⟩⟩ : Sent (Station (Fin N)) (Party (Fin N)) (Copy (Fin N))) ∈
          (after addr (some r) (.receive x.msg) n).soup := by
      refine List.mem_append_right _ (List.mem_map.mpr ⟨_, ?_, rfl⟩)
      rw [hsent]
      exact List.mem_singleton_self _
    refine ⟨_, reach_after hn (some r) hheard, ?_, _, hmem,
      (packageId_resent hflight.length _).trans hid, congrArg (· + 1) hlen⟩
    intro r' hr'
    have hne : (some r' : Station (Fin N)) ≠ some r := by
      rintro ⟨⟩
      exact absurd hr' (Nat.not_succ_le_self k)
    simp only [after, Function.update_of_ne hne]
    exact hfresh r' (by omega)

/-- **Flooding is bounded and counts hops.** Every relay sends ids in increasing order, each package
    goes on the air at most once for each station, and a copy tells the length of its route modulo
    256 and the first address byte of the station its last relay heard. -/
theorem flooding_bounded [Fintype R] (h : Reach (flood addr).Init (flood addr).Step ok n) :
    (∀ r : R, ((n.soup.filter (·.src = some r)).map (·.msg.packageId)).Pairwise (· < ·)) ∧
    (∀ k, n.soup.countP (·.msg.packageId = k) ≤ Fintype.card R + 1) ∧
    ∀ x ∈ n.soup, x.src = x.msg.route.head? ∧ x.msg.route.Nodup ∧
      x.msg.hop.toNat = x.msg.route.length % 256 ∧
      ∀ r earlier, x.msg.route = r :: earlier →
        x.msg.fromByte = (addr earlier.head?).toUInt8 ∧
          ∃ y ∈ n.soup, y.msg.route = earlier ∧ y.msg.packageId = x.msg.packageId := by
  refine ⟨?_, ?_, ?_⟩
  · intro r
    refine List.pairwise_map.mpr (((ascending.pairwise h).filter _).imp_of_mem ?_)
    intro x y hx hy hlt
    have hxr := of_decide_eq_true (List.mem_filter.mp hx).2
    have hyr := of_decide_eq_true (List.mem_filter.mp hy).2
    exact hlt (hxr.trans hyr.symm)
  · intro k
    have hcount := ascending.count_key_le h k.toNat
    simp only [UInt8.toNat_inj, Fintype.card_option] at hcount
    exact hcount
  · intro x hx
    have hflight := inFlight_of_reach h x hx
    have htraced := traced_of_reach h x hx
    refine ⟨hflight.src, htraced.nodup, ?_, ?_⟩
    · rw [hflight.hop, UInt8.toNat_ofNat']
    · intro r earlier hroute
      refine ⟨?_, htraced.heard r earlier hroute⟩
      rw [hflight.fromByte, hroute]
      rfl

/-- The bounds in a network where the package has passed three relays. -/
theorem flooding_bounded_three : ∃ n : Net (Station (Fin 3)) (Party (Fin 3)) (Copy (Fin 3)),
    (∃ x ∈ n.soup, x.msg.route.length = 3 ∧ x.msg.hop.toNat = 3 % 256) ∧
      ∀ k, n.soup.countP (·.msg.packageId = k) ≤ Fintype.card (Fin 3) + 1 := by
  obtain ⟨n, hn, -, x, hx, -, hlen⟩ := exists_chain rowAddr 3 (Nat.le_refl 3)
  obtain ⟨-, hcount, hcopy⟩ := flooding_bounded hn
  obtain ⟨-, -, hhop, -⟩ := hcopy x hx
  rw [hlen] at hhop
  exact ⟨n, ⟨x, hx, hlen, hhop⟩, hcount⟩

/-- Behind 256 relays the hop byte is back at 0. -/
theorem hop_wraps : ∃ n : Net (Station (Fin 256)) (Party (Fin 256)) (Copy (Fin 256)),
    Reach (flood rowAddr).Init (flood rowAddr).Step Lib.Always n ∧
      ∃ x ∈ n.soup, x.msg.route.length = 256 ∧ x.msg.hop = 0 := by
  obtain ⟨n, hn, -, x, hx, -, hlen⟩ := exists_chain rowAddr 256 (Nat.le_refl 256)
  refine ⟨n, hn, x, hx, hlen, ?_⟩
  rw [(inFlight_of_reach hn x hx).hop, hlen]
  rfl

/-- With at most 255 relays the hop byte is the number of relays passed. -/
theorem hop_exact [Fintype R] (hR : Fintype.card R ≤ 255)
    (h : Reach (flood addr).Init (flood addr).Step ok n) {x : Sent (Station R) (Party R) (Copy R)}
    (hx : x ∈ n.soup) : x.msg.hop.toNat = x.msg.route.length := by
  have hlen := (traced_of_reach h x hx).nodup.length_le_card
  rw [(inFlight_of_reach h x hx).hop, UInt8.toNat_ofNat']
  omega

end

end Adler.Flood
