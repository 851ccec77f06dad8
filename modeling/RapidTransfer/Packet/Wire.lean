/-
The wire format byte by byte (`packet_manager.cpp`): what `setPayload` and `encode` write into packets, what the NIC
gathers from the slices of `serialize`, and what `deserialize` reads from the packet the peer's NIC has filled. The
header is split: six bits of session, the command and the sequence number travel in the immediate, the window and the
timestamp in eight bytes before the payload. A packet whose immediate is zero is sent without one.

The rest of the development works with `deserialize` on byte lists and with `onWire`. `receivePacket_eq` and
`deserialize_gather` say that they are what the bytes come to.
-/
import RapidTransfer.Queue.Receive
import RapidTransfer.Lib.Bytes

namespace RapidTransfer

open Bytes

/-! ## Memory -/

/-- The packets of the arena, and the memory of the user. -/
structure Memory where
  packet : Nat → Nat → UInt8
  user : Nat → UInt8

/-- A `memmove` into a packet. -/
def Memory.write (m : Memory) (slot : Nat) (mv : MemMove) : Memory :=
  { m with packet := Function.update m.packet slot (mv.apply (m.packet slot)) }

@[simp] theorem Memory.packet_write_self (m : Memory) (slot : Nat) (mv : MemMove) :
    (m.write slot mv).packet slot = mv.apply (m.packet slot) :=
  Function.update_self _ _ _

@[simp] theorem Memory.user_write (m : Memory) (slot : Nat) (mv : MemMove) : (m.write slot mv).user = m.user := rfl

theorem bytesAt_add (mem : Nat → UInt8) (addr n k : Nat) :
    bytesAt mem addr (n + k) = bytesAt mem addr n ++ bytesAt mem (addr + n) k := by
  unfold bytesAt
  rw [List.range_add, List.map_append, List.map_map]
  simp [Function.comp_def, Nat.add_assoc]

/-- Reading a part of a range. -/
theorem bytesAt_eq_take_drop (mem : Nat → UInt8) {i n len : Nat} (h : i + n ≤ len) :
    bytesAt mem i n = ((bytesAt mem 0 len).drop i).take n := by
  obtain ⟨k, rfl⟩ := Nat.exists_eq_add_of_le h
  rw [bytesAt_add, bytesAt_add, List.append_assoc, List.drop_left' (by simp), List.take_left' (by simp), Nat.zero_add]

/-! ## The sender -/

namespace PacketHandle

/-- Where the header of the packet begins: the NIC puts a GRH before it on the receiving side. -/
def hdrOffset (h : PacketHandle) : Nat := if h.withGrh then grhSize else 0

/-- `setPayload` with its `memmove`. -/
def setPayloadIn (h : PacketHandle) (m : Memory) (data length : Nat) (doCopy : Bool) : Option (PacketHandle × Memory) :=
  match h.packetBuf with
  | none => none
  | some slot =>
    (h.setPayload data length doCopy).map fun h' =>
      (h', if doCopy then m.write slot ⟨h.hdrOffset + pktHdrSize, bytesAt m.user data length⟩ else m)

/-- The bytes of `getPayload`. -/
def getPayload (h : PacketHandle) (m : Memory) : List UInt8 :=
  match h.packetBuf with
  | none => []
  | some slot =>
    if h.dataBuf ≠ 0 then bytesAt m.user h.dataBuf h.dataLen
    else bytesAt (m.packet slot) (h.hdrOffset + pktHdrSize) h.dataLen

/-- The eight bytes `encode` writes: `wnd`, and the timestamp as `ts_lo` and `ts_hi`. -/
def hdrBytes (h : PacketHandle) : List UInt8 := toLe 2 h.wnd ++ (toLe 2 h.ts ++ toLe 4 (h.ts / 2 ^ 16))

/-- `encode`: the immediate, and the header unless the packet is compacted. -/
def encode (h : PacketHandle) (m : Memory) : Option (Nat × Memory) :=
  match h.packetBuf with
  | none => none
  | some slot => some (h.hdrImm, if h.compacted then m else m.write slot ⟨0, h.hdrBytes⟩)

/-- `serialize` into a vector: its slices, the immediate and the memory. -/
def serializeIn (h : PacketHandle) (m : Memory) : Option (List Slice × Nat × Memory) :=
  match h.packetBuf with
  | none => none
  | some slot =>
    if h.withGrh then none
    else
      (h.encode m).map fun r =>
        if h.dataBuf = 0 then ([.packet slot (pktHdrSize + h.dataLen)], r)
        else ([.packet slot pktHdrSize, .user ⟨h.dataBuf, h.dataLen⟩], r)

/-- `serialize` into an array of two slices, with a null address where there is none. -/
def serializeArray (h : PacketHandle) (m : Memory) : Option ((Option Slice × Option Slice) × Nat × Memory) :=
  match h.packetBuf with
  | none => none
  | some slot =>
    if h.withGrh then none
    else
      (h.encode m).map fun r =>
        if h.dataBuf = 0 then ((some (.packet slot (pktHdrSize + h.dataLen)), none), r)
        else ((some (.packet slot pktHdrSize), some (.user ⟨h.dataBuf, h.dataLen⟩)), r)

end PacketHandle

open PacketHandle

/-- The scatter list of `postSendRequest`, which stops at the first null address. -/
def sgList : Option Slice × Option Slice → List Slice
  | (none, _) => []
  | (some a, none) => [a]
  | (some a, some b) => [a, b]

/-- The bytes of a slice. -/
def sliceBytes (m : Memory) : Slice → List UInt8
  | .packet slot length => bytesAt (m.packet slot) 0 length
  | .user b => bytesAt m.user b.addr b.length

/-- What the NIC sends. -/
def gather (m : Memory) (slices : List Slice) : List UInt8 := slices.flatMap (sliceBytes m)

/-- The immediate a work request carries: `IBV_WR_SEND_WITH_IMM` is for those that are not zero. -/
def sentImm (immData : Nat) : Option Nat := if immData ≠ 0 then some immData else none

/-! ## The receiver -/

namespace PacketHandle

/-- `decode` of the header in the packet and the immediate. -/
def decode (h : PacketHandle) (m : Memory) (immData : Nat) : Option PacketHandle :=
  match h.packetBuf with
  | none => none
  | some slot =>
    let compacted := immData / 2 ^ 7 % 2 == 1
    some
      { h with
        wnd := if compacted then h.wnd else ofLe (bytesAt (m.packet slot) h.hdrOffset 2)
        ts := if compacted then h.ts
          else 2 ^ 16 * ofLe (bytesAt (m.packet slot) (h.hdrOffset + 4) 4) +
            ofLe (bytesAt (m.packet slot) (h.hdrOffset + 2) 2)
        session := immData % 2 ^ 6
        cmd := immData / 2 ^ 6 % 2
        compacted := compacted
        sn := immData / 2 ^ 8 % 2 ^ 24
        dataBuf := 0 }

/-- `deserialize` on the handle. -/
def deserializeIn (h : PacketHandle) (m : Memory) (immData packetLength : Nat) : Option PacketHandle :=
  if packetLength < pktHdrSize + h.hdrOffset then none
  else decode { h with dataLen := packetLength - pktHdrSize - h.hdrOffset } m immData

/-- The packet that a handle shows. -/
def toPacket (h : PacketHandle) (m : Memory) : Packet :=
  { session := h.session, cmd := h.cmd, wnd := h.wnd, sn := h.sn, ts := h.ts, compacted := h.compacted,
    payload := h.getPayload m }

end PacketHandle

/-- The NIC puts a GRH and the stream into a receive buffer. -/
def Memory.deliver (m : Memory) (slot : Nat) (grh stream : List UInt8) : Memory := m.write slot ⟨0, grh ++ stream⟩

/-- The head of `processReceivedPacket`: the immediate is zero if the completion has none. -/
def receivePacket (m : Memory) (slot : Nat) (immData : Option Nat) (byteLen : UInt32) : Option PacketHandle :=
  (setRawPacket (some slot) true).deserializeIn m (immData.getD 0) byteLen.toNat

/-! ## What is sent -/

variable {h : PacketHandle} {m : Memory} {slot : Nat}

@[simp] theorem length_hdrBytes (h : PacketHandle) : h.hdrBytes.length = pktHdrSize := by
  simp [hdrBytes, pktHdrSize]

theorem sentImm_getD (immData : Nat) : (sentImm immData).getD 0 = immData := by
  unfold sentImm
  split
  · rfl
  · rename_i hz
    exact (not_not.1 hz).symm

/-- `setPayload` leaves the payload where `getPayload` finds it, copied or not. -/
theorem getPayload_setPayloadIn {h' : PacketHandle} {m' : Memory} {data length : Nat} {doCopy : Bool}
    (hlen : length < 2 ^ 32) (hset : h.setPayloadIn m data length doCopy = some (h', m')) :
    h'.dataLen = length ∧ h'.getPayload m' = bytesAt m.user data length := by
  unfold setPayloadIn at hset
  cases hbuf : h.packetBuf with
  | none =>
    rw [hbuf] at hset
    cases hset
  | some slot =>
    rw [hbuf] at hset
    obtain ⟨h1, hp, hx⟩ := Option.map_eq_some_iff.1 hset
    cases hx
    unfold PacketHandle.setPayload at hp
    rw [if_neg (by simp [hbuf])] at hp
    split at hp
    · cases hp
    · rename_i hnull
      cases hp
      refine ⟨Nat.mod_eq_of_lt hlen, ?_⟩
      unfold getPayload
      simp only [hbuf, Nat.mod_eq_of_lt hlen]
      cases doCopy with
      | true =>
        have hself := (MemMove.mk (h.hdrOffset + pktHdrSize) (bytesAt m.user data length)).bytesAt_apply_self
          (m.packet slot)
        rw [length_bytesAt] at hself
        simp only [if_true, ne_eq, not_true_eq_false, if_false, Memory.packet_write_self]
        exact hself
      | false =>
        by_cases hz : data = 0
        · -- a null payload is empty
          obtain rfl : length = 0 := by
            by_contra hl
            exact hnull ⟨hz, hl⟩
          simp [bytesAt]
        · simp [hz]

/-- The stream of a packet: its header, which is left as it was if the packet is compacted, and its payload. -/
theorem serializeIn_gather (hbuf : h.packetBuf = some slot) (hgrh : h.withGrh = false) :
    ∃ slices m' hdr, h.serializeIn m = some (slices, h.hdrImm, m') ∧ gather m' slices = hdr ++ h.getPayload m ∧
      hdr.length = pktHdrSize ∧ (h.compacted = false → hdr = h.hdrBytes) := by
  have hencode : ∃ m', h.encode m = some (h.hdrImm, m') ∧ m'.user = m.user ∧
      bytesAt (m'.packet slot) pktHdrSize h.dataLen = bytesAt (m.packet slot) pktHdrSize h.dataLen ∧
      (h.compacted = false → bytesAt (m'.packet slot) 0 pktHdrSize = h.hdrBytes) := by
    unfold encode
    rw [hbuf]
    refine ⟨_, rfl, ?_⟩
    cases h.compacted with
    | true => exact ⟨rfl, rfl, fun hc => by cases hc⟩
    | false =>
      have hhdr := (MemMove.mk 0 h.hdrBytes).bytesAt_apply_self (m.packet slot)
      have hapart : pktHdrSize + h.dataLen ≤ 0 ∨ 0 + h.hdrBytes.length ≤ pktHdrSize := .inr (by simp)
      have hrest := (MemMove.mk 0 h.hdrBytes).bytesAt_apply_of_disjoint (m.packet slot) hapart
      simp only [Bool.false_eq_true, if_false, Memory.user_write, Memory.packet_write_self, hrest, true_and]
      rw [length_hdrBytes] at hhdr
      exact fun _ => hhdr
  obtain ⟨m', he, huser, hrest, hhdr⟩ := hencode
  unfold serializeIn getPayload
  simp only [hbuf, hgrh, he, Bool.false_eq_true, if_false, Option.map_some]
  by_cases hz : h.dataBuf = 0
  · refine ⟨_, m', bytesAt (m'.packet slot) 0 pktHdrSize, by rw [if_pos hz], ?_, by simp, hhdr⟩
    simp [gather, sliceBytes, bytesAt_add, hz, hdrOffset, hgrh, hrest]
  · refine ⟨_, m', bytesAt (m'.packet slot) 0 pktHdrSize, by rw [if_neg hz], ?_, by simp, hhdr⟩
    simp [gather, sliceBytes, huser, hz]

/-- Both overloads hand the same slices to the NIC. -/
theorem serializeArray_eq (h : PacketHandle) (m : Memory) :
    (h.serializeArray m).map (fun r => (sgList r.1, r.2)) = h.serializeIn m := by
  unfold serializeArray serializeIn
  cases h.packetBuf with
  | none => rfl
  | some slot =>
    cases h.withGrh with
    | true => rfl
    | false =>
      cases h.encode m with
      | none => rfl
      | some r => by_cases hz : h.dataBuf = 0 <;> simp [hz, sgList]

/-- The slices are those that the rest of the development uses. -/
theorem serializeIn_eq (h : PacketHandle) (m : Memory) :
    (h.serializeIn m).map (fun r => (r.1, r.2.1)) = h.serialize := by
  unfold serializeIn encode PacketHandle.serialize
  cases h.packetBuf with
  | none => rfl
  | some slot =>
    cases h.withGrh with
    | true => rfl
    | false => by_cases hz : h.dataBuf = 0 <;> simp [hz]

/-! ## What is received -/

theorem hdrImm_fields (h : PacketHandle) :
    h.hdrImm % 2 ^ 6 = h.session % 2 ^ 6 ∧ h.hdrImm / 2 ^ 6 % 2 = h.cmd % 2 ∧
      h.hdrImm / 2 ^ 7 % 2 = h.compacted.toNat ∧ h.hdrImm / 2 ^ 8 % 2 ^ 24 = h.sn % 2 ^ 24 := by
  have hbit : h.compacted.toNat < 2 := h.compacted.toNat_lt
  unfold hdrImm
  omega

theorem hdrBytes_fields (h : PacketHandle) :
    ofLe (h.hdrBytes.take 2) = h.wnd % 2 ^ 16 ∧
      2 ^ 16 * ofLe (h.hdrBytes.drop 4) + ofLe ((h.hdrBytes.drop 2).take 2) = h.ts % 2 ^ 48 := by
  have hwnd : h.hdrBytes.take 2 = toLe 2 h.wnd := List.take_left' (length_toLe 2 _)
  have hrest : h.hdrBytes.drop 2 = toLe 2 h.ts ++ toLe 4 (h.ts / 2 ^ 16) := List.drop_left' (length_toLe 2 _)
  have hlo : (h.hdrBytes.drop 2).take 2 = toLe 2 h.ts := by rw [hrest, List.take_left' (length_toLe 2 _)]
  have hhi : h.hdrBytes.drop 4 = toLe 4 (h.ts / 2 ^ 16) := by
    rw [show 4 = 2 + 2 from rfl, ← List.drop_drop, hrest, List.drop_left' (length_toLe 2 _)]
  rw [hwnd, hlo, hhi, ofLe_toLe, ofLe_toLe, ofLe_toLe]
  omega

theorem leBytes_eq (bytes : List UInt8) : ∀ (n i : Nat), i + n ≤ bytes.length →
    leBytes bytes i n = ofLe ((bytes.drop i).take n)
  | 0, i, _ => by simp [leBytes, ofLe]
  | n + 1, i, h => by
    have hi : i < bytes.length := by omega
    rw [leBytes, leBytes_eq bytes n (i + 1) (by omega), List.drop_eq_getElem_cons hi, List.take_succ_cons, ofLe]
    simp [hi]

/-- A stream behind a GRH: the header in its three parts, and the payload. -/
theorem deserialize_stream (immData : Nat) {grh hdr payload : List UInt8} (hgrh : grh.length = grhSize)
    (hhdr : hdr.length = pktHdrSize) :
    deserialize immData (grh ++ (hdr ++ payload)) = some
      { session := immData % 2 ^ 6
        cmd := immData / 2 ^ 6 % 2
        compacted := immData / 2 ^ 7 % 2 == 1
        sn := immData / 2 ^ 8 % 2 ^ 24
        wnd := if immData / 2 ^ 7 % 2 == 1 then 0 else ofLe (hdr.take 2)
        ts := if immData / 2 ^ 7 % 2 == 1 then 0 else 2 ^ 16 * ofLe (hdr.drop 4) + ofLe ((hdr.drop 2).take 2)
        payload := payload } := by
  have hlen : (grh ++ (hdr ++ payload)).length = grhSize + (pktHdrSize + payload.length) := by simp [hgrh, hhdr]
  have hread : ∀ i n, i + n ≤ pktHdrSize →
      leBytes (grh ++ (hdr ++ payload)) (grhSize + i) n = ofLe ((hdr.drop i).take n) := by
    intro i n hin
    rw [leBytes_eq _ _ _ (by omega), ← List.drop_drop, List.drop_left' hgrh, List.drop_append_of_le_length (by omega),
      List.take_append_of_le_length (by rw [List.length_drop]; omega)]
  have hhi : (hdr.drop 4).take 4 = hdr.drop 4 := List.take_of_length_le (by rw [List.length_drop, hhdr]; decide)
  have hpayload : (grh ++ (hdr ++ payload)).drop (pktHdrSize + grhSize) = payload := by
    rw [Nat.add_comm, ← List.drop_drop, List.drop_left' hgrh, List.drop_left' hhdr]
  have hwnd : leBytes (grh ++ (hdr ++ payload)) grhSize 2 = ofLe (hdr.take 2) := hread 0 2 (by decide)
  unfold deserialize
  rw [if_neg (by omega)]
  simp only [hread 4 4 (by decide), hread 2 2 (by decide), hwnd, hhi, hpayload]

/-- The handle of `processReceivedPacket` shows what `deserialize` reads from the bytes of its packet. -/
theorem receivePacket_eq (m : Memory) (slot : Nat) (immData : Option Nat) (byteLen : UInt32) :
    (receivePacket m slot immData byteLen).map (·.toPacket m) =
      deserialize (immData.getD 0) (bytesAt (m.packet slot) 0 byteLen.toNat) := by
  unfold receivePacket deserializeIn deserialize
  rw [length_bytesAt]
  have hoffset : (setRawPacket (some slot) true).hdrOffset = grhSize := rfl
  rw [hoffset]
  by_cases hshort : byteLen.toNat < pktHdrSize + grhSize
  · rw [if_pos hshort, if_pos hshort]
    rfl
  · obtain ⟨k, hk⟩ := Nat.exists_eq_add_of_le (not_lt.1 hshort)
    have hread : ∀ i n, i + n ≤ pktHdrSize + grhSize →
        leBytes (bytesAt (m.packet slot) 0 byteLen.toNat) i n = ofLe (bytesAt (m.packet slot) i n) := by
      intro i n hin
      rw [leBytes_eq _ _ _ (by rw [length_bytesAt]; omega), ← bytesAt_eq_take_drop _ (by omega)]
    have hpayload : (bytesAt (m.packet slot) 0 byteLen.toNat).drop (pktHdrSize + grhSize) =
        bytesAt (m.packet slot) (pktHdrSize + grhSize) k := by
      rw [hk, bytesAt_add, List.drop_left' (by simp), Nat.zero_add]
    have hlen : byteLen.toNat - pktHdrSize - grhSize = k := by omega
    rw [if_neg hshort, if_neg hshort, hlen]
    simp only [hread grhSize 2 (by decide), hread (grhSize + 2) 2 (by decide),
      hread (grhSize + 4) 4 (by decide), hpayload]
    rfl

/-- The bytes a peer receives from a packet with an attached payload decode to `onWire`. -/
theorem deserialize_gather {m' : Memory} {slices : List Slice} {immData : Nat} {grh : List UInt8}
    (hgrh : grh.length = grhSize) (hdata : h.dataBuf ≠ 0) (hs : h.serializeIn m = some (slices, immData, m')) :
    deserialize ((sentImm immData).getD 0) (grh ++ gather m' slices) = some (h.onWire m.user) := by
  cases hbuf : h.packetBuf with
  | none => simp [serializeIn, hbuf] at hs
  | some slot =>
    cases hg : h.withGrh with
    | true => simp [serializeIn, hbuf, hg] at hs
    | false =>
      obtain ⟨slices', m1, hdr, hs', hgather, hlen, hhdr⟩ := serializeIn_gather (m := m) hbuf hg
      rw [hs] at hs'
      cases hs'
      obtain ⟨hsession, hcmd, hcompacted, hsn⟩ := hdrImm_fields h
      have hpayload : h.getPayload m = bytesAt m.user h.dataBuf h.dataLen := by
        unfold getPayload
        rw [hbuf]
        exact if_pos hdata
      rw [hgather, sentImm_getD, deserialize_stream _ hgrh hlen, hsession, hcmd, hcompacted, hsn, hpayload]
      unfold onWire
      cases hc : h.compacted with
      | true => rfl
      | false =>
        obtain ⟨hwnd, hts⟩ := hdrBytes_fields h
        rw [hhdr hc, hwnd, hts]
        rfl

/-! ## Round trips -/

/-- The fields and the payload of `h` have arrived in `h'`. -/
structure Carried (h : PacketHandle) (m : Memory) (h' : PacketHandle) (m' : Memory) : Prop where
  session : h'.session = h.session
  cmd : h'.cmd = h.cmd
  sn : h'.sn = h.sn
  wnd : h'.wnd = h.wnd
  ts : h'.ts = h.ts
  dataLen : h'.dataLen = h.dataLen
  payload : h'.getPayload m' = h.getPayload m

/-- The fields of the header fit their width on the wire. -/
structure PacketHandle.Encodable (h : PacketHandle) : Prop where
  session : h.session < 64
  cmd : h.cmd < 2
  sn : h.sn < 2 ^ 24
  wnd : h.wnd < 2 ^ 16
  ts : h.ts < 2 ^ 48
  compacted : h.compacted = false

theorem length_getPayload (hbuf : h.packetBuf = some slot) : (h.getPayload m).length = h.dataLen := by
  unfold getPayload
  rw [hbuf]
  simp only
  split <;> simp

/-- A handle that was received shows as many bytes as were sent behind the header. -/
theorem dataLen_receivePacket {immData : Option Nat} {byteLen : UInt32} {h' : PacketHandle}
    (hr : receivePacket m slot immData byteLen = some h') :
    h'.packetBuf = some slot ∧ byteLen.toNat = grhSize + (pktHdrSize + h'.dataLen) := by
  unfold receivePacket deserializeIn at hr
  split at hr
  · cases hr
  · rename_i hlong
    have hoffset : (setRawPacket (some slot) true).hdrOffset = grhSize := rfl
    rw [hoffset] at hlong
    cases hr
    refine ⟨rfl, ?_⟩
    show byteLen.toNat = grhSize + (pktHdrSize + (byteLen.toNat - pktHdrSize - grhSize))
    omega

theorem carried_receivePacket {m1 m2 : Memory} {slices : List Slice} {slot2 : Nat} {grh : List UInt8} {byteLen : UInt32}
    {immData : Nat} (hbuf : h.packetBuf = some slot) (hfits : h.Encodable)
    (hs : h.serializeIn m = some (slices, immData, m1)) (hgrh : grh.length = grhSize)
    (hlen : byteLen.toNat = grhSize + (gather m1 slices).length) :
    ∃ h', receivePacket (m2.deliver slot2 grh (gather m1 slices)) slot2 (sentImm immData) byteLen = some h' ∧
      Carried h m h' (m2.deliver slot2 grh (gather m1 slices)) := by
  have hg : h.withGrh = false := by
    by_contra hg
    simp [serializeIn, hbuf, hg] at hs
  obtain ⟨slices', m1', hdr, hs', hgather, hhdrlen, hhdr⟩ := serializeIn_gather (m := m) hbuf hg
  rw [hs] at hs'
  cases hs'
  -- what the peer's packet holds
  have hbytes := (MemMove.mk 0 (grh ++ gather m1 slices)).bytesAt_apply_self (m2.packet slot2)
  rw [List.length_append, hgrh, ← hlen, hgather, hhdr hfits.compacted] at hbytes
  have hread := receivePacket_eq (m2.deliver slot2 grh (gather m1 slices)) slot2 (sentImm h.hdrImm) byteLen
  unfold Memory.deliver at hread ⊢
  rw [hgather, hhdr hfits.compacted] at hread ⊢
  rw [Memory.packet_write_self, hbytes, deserialize_stream _ hgrh (length_hdrBytes h), sentImm_getD] at hread
  obtain ⟨h', hr, hpacket⟩ := Option.map_eq_some_iff.1 hread
  obtain ⟨hsession, hcmd, hcompacted, hsn⟩ := hdrImm_fields h
  obtain ⟨hwnd, hts⟩ := hdrBytes_fields h
  rw [hfits.compacted] at hcompacted
  simp only [toPacket, hcompacted, hwnd, hts, hsession, hcmd, hsn, Packet.mk.injEq] at hpacket
  obtain ⟨e1, e2, e3, e4, e5, -, e7⟩ := hpacket
  have hdatalen : h'.dataLen = h.dataLen := by
    have := (dataLen_receivePacket hr).2
    rw [hlen, hgather, List.length_append, hhdrlen, length_getPayload hbuf] at this
    omega
  refine ⟨h', hr, e1.trans (Nat.mod_eq_of_lt hfits.session), e2.trans (Nat.mod_eq_of_lt hfits.cmd),
    e4.trans (Nat.mod_eq_of_lt hfits.sn), e3.trans (Nat.mod_eq_of_lt hfits.wnd), e5.trans (Nat.mod_eq_of_lt hfits.ts),
    hdatalen, e7⟩

/-- The header in a packet is that of a handle whose fields it was decoded to. -/
theorem hdrBytes_decoded {mem : Nat → UInt8} {i : Nat} (hwnd : h.wnd = ofLe (bytesAt mem i 2))
    (hts : h.ts = 2 ^ 16 * ofLe (bytesAt mem (i + 4) 4) + ofLe (bytesAt mem (i + 2) 2)) :
    h.hdrBytes = bytesAt mem i pktHdrSize := by
  have hback : ∀ a n, toLe n (ofLe (bytesAt mem a n)) = bytesAt mem a n := by
    intro a n
    have := toLe_ofLe (bytesAt mem a n)
    rwa [length_bytesAt] at this
  have hlo : ofLe (bytesAt mem (i + 2) 2) < 256 ^ 2 := by
    have := ofLe_lt (bytesAt mem (i + 2) 2)
    rwa [length_bytesAt] at this
  have hmod : h.ts % 256 ^ 2 = ofLe (bytesAt mem (i + 2) 2) := by omega
  have hdiv : h.ts / 2 ^ 16 = ofLe (bytesAt mem (i + 4) 4) := by omega
  unfold hdrBytes
  rw [← toLe_mod 2 h.ts, hmod, hdiv, hwnd, hback, hback, hback, ← bytesAt_add mem (i + 2) 2 4,
    ← bytesAt_add mem i 2 (2 + 4)]
  rfl

/-- Decoding, and encoding again in another packet. -/
theorem encode_decode {immData packetLength : Nat} (hbuf : h.packetBuf = some slot)
    (himm : immData < 2 ^ 32) (hfull : immData / 2 ^ 7 % 2 = 0) (hlen : pktHdrSize + h.hdrOffset ≤ packetLength)
    (slot2 : Nat) (m2 : Memory) :
    ∃ h' m3, h.deserializeIn m immData packetLength = some h' ∧
      PacketHandle.encode { h' with packetBuf := some slot2, withGrh := false } m2 = some (immData, m3) ∧
      bytesAt (m3.packet slot2) 0 pktHdrSize = bytesAt (m.packet slot) h.hdrOffset pktHdrSize := by
  have hdecode : ∃ h', h.deserializeIn m immData packetLength = some h' ∧ h'.session = immData % 2 ^ 6 ∧
      h'.cmd = immData / 2 ^ 6 % 2 ∧ h'.compacted = false ∧ h'.sn = immData / 2 ^ 8 % 2 ^ 24 ∧
      h'.wnd = ofLe (bytesAt (m.packet slot) h.hdrOffset 2) ∧
      h'.ts = 2 ^ 16 * ofLe (bytesAt (m.packet slot) (h.hdrOffset + 4) 4) +
        ofLe (bytesAt (m.packet slot) (h.hdrOffset + 2) 2) := by
    unfold deserializeIn decode
    rw [if_neg (not_lt.2 hlen), hbuf, hfull]
    exact ⟨_, rfl, rfl, rfl, rfl, rfl, rfl, rfl⟩
  obtain ⟨h', hd, hsession, hcmd, hcompacted, hsn, hwnd, hts⟩ := hdecode
  have hmm : PacketHandle.hdrImm { h' with packetBuf := some slot2, withGrh := false } = immData := by
    simp only [hdrImm, hsession, hcmd, hcompacted, hsn, Bool.toNat_false]
    omega
  have hbytes : PacketHandle.hdrBytes { h' with packetBuf := some slot2, withGrh := false } =
      bytesAt (m.packet slot) h.hdrOffset pktHdrSize := hdrBytes_decoded hwnd hts
  refine ⟨h', m2.write slot2 ⟨0, bytesAt (m.packet slot) h.hdrOffset pktHdrSize⟩, hd, ?_, ?_⟩
  · unfold encode
    simp only
    rw [hmm, hbytes, if_neg (by simp [hcompacted])]
  · have hself := (MemMove.mk 0 (bytesAt (m.packet slot) h.hdrOffset pktHdrSize)).bytesAt_apply_self (m2.packet slot2)
    rw [length_bytesAt] at hself
    rw [Memory.packet_write_self]
    exact hself

/-- A payload that is set, copied or attached, is the payload of the handle. Both overloads of `serialize` give the NIC
the same immediate and the same bytes. Behind a GRH in a packet of the peer, with the immediate only if it is not zero,
they are decoded to the same fields and the same payload. Conversely, the fields decoded from an immediate and eight
header bytes are encoded to the same immediate and the same bytes. -/
theorem wire_round_trip :
    (∀ (h h' : PacketHandle) (m m' : Memory) (data length : Nat) (doCopy : Bool), length < 2 ^ 32 →
      h.setPayloadIn m data length doCopy = some (h', m') →
      h'.dataLen = length ∧ h'.getPayload m' = bytesAt m.user data length) ∧
    (∀ (h : PacketHandle) (m : Memory) (slot : Nat), h.packetBuf = some slot → h.withGrh = false → h.Encodable →
      ∃ slices array immData m1, h.serializeIn m = some (slices, immData, m1) ∧
        h.serializeArray m = some (array, immData, m1) ∧ gather m1 (sgList array) = gather m1 slices ∧
        ∀ (m2 : Memory) (slot2 : Nat) (grh : List UInt8) (byteLen : UInt32), grh.length = grhSize →
          byteLen.toNat = grhSize + (gather m1 slices).length →
          ∃ h', receivePacket (m2.deliver slot2 grh (gather m1 slices)) slot2 (sentImm immData) byteLen = some h' ∧
            Carried h m h' (m2.deliver slot2 grh (gather m1 slices))) ∧
    ∀ (h : PacketHandle) (m : Memory) (slot immData packetLength : Nat), h.packetBuf = some slot → immData < 2 ^ 32 →
      immData / 2 ^ 7 % 2 = 0 → pktHdrSize + h.hdrOffset ≤ packetLength → ∀ (slot2 : Nat) (m2 : Memory),
      ∃ h' m3, h.deserializeIn m immData packetLength = some h' ∧
        PacketHandle.encode { h' with packetBuf := some slot2, withGrh := false } m2 = some (immData, m3) ∧
        bytesAt (m3.packet slot2) 0 pktHdrSize = bytesAt (m.packet slot) h.hdrOffset pktHdrSize := by
  refine ⟨fun h h' m m' data length doCopy hlen hset => getPayload_setPayloadIn hlen hset, ?_, ?_⟩
  · intro h m slot hbuf hgrh hfits
    obtain ⟨slices, m1, -, hs, -⟩ := serializeIn_gather (m := m) hbuf hgrh
    have harray := serializeArray_eq h m
    rw [hs] at harray
    obtain ⟨⟨array, immData, m1'⟩, ha, hx⟩ := Option.map_eq_some_iff.1 harray
    simp only [Prod.mk.injEq] at hx
    obtain ⟨hslices, rfl, rfl⟩ := hx
    refine ⟨slices, array, h.hdrImm, m1', hs, ha, congrArg (gather m1') hslices, ?_⟩
    intro m2 slot2 grh byteLen hg hlen
    exact carried_receivePacket hbuf hfits hs hg hlen
  · intro h m slot immData packetLength hbuf himm hfull hlen slot2 m2
    exact encode_decode hbuf himm hfull hlen slot2 m2

/-- A packet of session 3 with two attached bytes, sent and received. -/
theorem attached_packet_carried : ∃ slices immData m1 h',
    serializeIn ⟨3, 1, 4096, 0x5f1234, 2 ^ 47, false, false, false, some 0, 2, 100⟩
        ⟨fun _ _ => 0, fun a => UInt8.ofNat a⟩ = some (slices, immData, m1) ∧
    receivePacket (Memory.deliver ⟨fun _ _ => 0, fun _ => 0⟩ 5 (List.replicate 40 9) (gather m1 slices)) 5
        (sentImm immData) 50 = some h' ∧
    Carried ⟨3, 1, 4096, 0x5f1234, 2 ^ 47, false, false, false, some 0, 2, 100⟩
    ⟨fun _ _ => 0, fun a => UInt8.ofNat a⟩ h'
      (Memory.deliver ⟨fun _ _ => 0, fun _ => 0⟩ 5 (List.replicate 40 9) (gather m1 slices)) := by
  obtain ⟨slices, array, immData, m1, hs, -, -, hcarried⟩ := wire_round_trip.2.1
    ⟨3, 1, 4096, 0x5f1234, 2 ^ 47, false, false, false, some 0, 2, 100⟩ ⟨fun _ _ => 0, fun a => UInt8.ofNat a⟩ 0 rfl rfl
    ⟨by decide, by decide, by decide, by decide, by decide, rfl⟩
  have hlen : (gather m1 slices).length = 10 := by
    cases hs
    rfl
  obtain ⟨h', hr, hc⟩ :=
    hcarried ⟨fun _ _ => 0, fun _ => 0⟩ 5 (List.replicate 40 9) 50 (List.length_replicate) (by rw [hlen]; rfl)
  exact ⟨slices, immData, m1, h', hs, hr, hc⟩

end RapidTransfer
