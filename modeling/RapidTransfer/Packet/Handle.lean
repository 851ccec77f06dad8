/-
Packets of the unreliable protocol (`packet_manager.h`, `packet_manager.cpp`): the packet handle
with its wire header, the packet as the receiver decodes it, and the pool the packet buffers come
from.

Pointers into the packet arena are arena slots (`Option Nat`, `none` the null pointer); pointers
into user memory are addresses (`Nat`, `0` the null pointer). `head_`, `tail_` and the fragment
counters are kept as unbounded numbers; a difference of two of them is 64-bit (`sub64`).
-/
import Mathlib.Tactic

namespace RapidTransfer

/-- `a - b` on `uint64_t`. -/
def sub64 (a b : Nat) : Nat := (a + 2 ^ 64 - b % 2 ^ 64) % 2 ^ 64

theorem sub64_of_le {a b : Nat} (h : b ≤ a) (hlt : a < b + 2 ^ 64) : sub64 a b = a - b := by
  unfold sub64; omega

/-- `SHORT_SN`: the 24 bits of an index that a packet carries. -/
def shortSN (x : Nat) : Nat := x % 2 ^ 24

theorem shortSN_lt (x : Nat) : shortSN x < 2 ^ 24 := Nat.mod_lt _ (by norm_num)

theorem shortSN_of_lt {x : Nat} (h : x < 2 ^ 24) : shortSN x = x := Nat.mod_eq_of_lt h

/-- `PKT_CMD_DATA` -/
def pktCmdData : Nat := 0
/-- `PKT_CMD_ACK` -/
def pktCmdAck : Nat := 1
/-- `sizeof(PktHdr)` -/
def pktHdrSize : Nat := 8
/-- `kGRHSize`, `sizeof(ibv_grh)` -/
def grhSize : Nat := 40

/-- A user buffer. -/
structure Buffer where
  addr : Nat
  length : Nat
  deriving DecidableEq, Repr

/-! ## The packet handle -/

structure PacketHandle where
  session : Nat
  cmd : Nat
  wnd : Nat
  sn : Nat
  ts : Nat
  compacted : Bool
  inflight : Bool
  withGrh : Bool
  packetBuf : Option Nat
  dataLen : Nat
  dataBuf : Nat
  deriving DecidableEq, Repr

namespace PacketHandle

/-- The constructor clears `packet_buf` only: the other members keep whatever the memory held. -/
def construct (raw : PacketHandle) : PacketHandle := { raw with packetBuf := none }

def setRawPacket (packetBuf : Option Nat) (withGrh : Bool) : PacketHandle :=
  { session := 0, cmd := 0, wnd := 0, sn := 0, ts := 0, compacted := false, inflight := false,
    withGrh := withGrh, packetBuf := packetBuf, dataLen := 0, dataBuf := 0 }

/-- `setPayload`, `none` for its error return. A copied payload lives behind the header of the
packet buffer, an attached one stays in user memory; `data_len` is a `uint32_t`. -/
def setPayload (h : PacketHandle) (data length : Nat) (doCopy : Bool) : Option PacketHandle :=
  if h.packetBuf = none then none
  else if data = 0 ∧ length ≠ 0 then none
  else some { h with dataBuf := if doCopy then 0 else data, dataLen := length % 2 ^ 32 }

/-- The immediate value `encode` packs: six bits of session, the command, the compacted flag and
the three bytes of the sequence number. -/
def hdrImm (h : PacketHandle) : Nat :=
  h.session % 2 ^ 6 + 2 ^ 6 * (h.cmd % 2) + 2 ^ 7 * h.compacted.toNat + 2 ^ 8 * (h.sn % 2 ^ 24)

/-- A piece of memory handed to the NIC. -/
inductive Slice
  | packet (slot length : Nat)
  | user (buffer : Buffer)
  deriving DecidableEq, Repr

/-- `serialize`, `none` for its error return: the slices to gather and the immediate value. -/
def serialize (h : PacketHandle) : Option (List Slice × Nat) :=
  match h.packetBuf with
  | none => none
  | some slot =>
    if h.withGrh then none
    else if h.dataBuf = 0 then some ([.packet slot (pktHdrSize + h.dataLen)], h.hdrImm)
    else some ([.packet slot pktHdrSize, .user ⟨h.dataBuf, h.dataLen⟩], h.hdrImm)

theorem serialize_isSome (h : PacketHandle) : h.serialize.isSome = (h.packetBuf.isSome && !h.withGrh) := by
  unfold serialize
  cases h.packetBuf with
  | none => rfl
  | some slot => cases h.withGrh <;> simp; split <;> rfl

/-- What is serialized is a packet. -/
theorem packetBuf_of_serialize {h : PacketHandle} {r} (hs : h.serialize = some r) : h.packetBuf.isSome = true := by
  have hsome := h.serialize_isSome
  rw [hs, Option.isSome_some] at hsome
  exact (Bool.and_eq_true_iff.1 hsome.symm).1

end PacketHandle

/-! ## Received packets -/

/-- A received packet as `deserialize` leaves it: the header fields and the payload bytes. -/
structure Packet where
  session : Nat
  cmd : Nat
  wnd : Nat
  sn : Nat
  ts : Nat
  compacted : Bool
  payload : List UInt8
  deriving DecidableEq, Repr

/-- The bytes of a memory range. -/
def bytesAt (mem : Nat → UInt8) (addr length : Nat) : List UInt8 := (List.range length).map fun k => mem (addr + k)

@[simp] theorem length_bytesAt (mem : Nat → UInt8) (addr n : Nat) : (bytesAt mem addr n).length = n := by
  simp [bytesAt]

/-- The packet a peer decodes from a handle with an attached payload: the fields cut to their width
on the wire and the payload bytes the NIC gathers from user memory. -/
def PacketHandle.onWire (h : PacketHandle) (mem : Nat → UInt8) : Packet :=
  { session := h.session % 2 ^ 6
    cmd := h.cmd % 2
    wnd := if h.compacted then 0 else h.wnd % 2 ^ 16
    sn := h.sn % 2 ^ 24
    ts := if h.compacted then 0 else h.ts % 2 ^ 48
    compacted := h.compacted
    payload := bytesAt mem h.dataBuf h.dataLen }

/-- Little-endian bytes `[i, i + n)` of a buffer. -/
def leBytes (bytes : List UInt8) (i : Nat) : Nat → Nat
  | 0 => 0
  | n + 1 => (bytes.getD i 0).toNat + 2 ^ 8 * leBytes bytes (i + 1) n

/-- `deserialize` of the `bytes` the NIC wrote (GRH, header, payload), `none` for its error return.
A compacted packet carries no header fields, so `wnd` and `ts` keep the zeros of `setRawPacket`. -/
def deserialize (immData : Nat) (bytes : List UInt8) : Option Packet :=
  if bytes.length < pktHdrSize + grhSize then none
  else
    let compacted := immData / 2 ^ 7 % 2 == 1
    some
      { session := immData % 2 ^ 6
        cmd := immData / 2 ^ 6 % 2
        compacted := compacted
        sn := immData / 2 ^ 8 % 2 ^ 24
        wnd := if compacted then 0 else leBytes bytes grhSize 2
        ts := if compacted then 0 else 2 ^ 16 * leBytes bytes (grhSize + 4) 4 + leBytes bytes (grhSize + 2) 2
        payload := bytes.drop (pktHdrSize + grhSize) }

/-- The session and the sequence number of a packet have the width of their header fields. -/
theorem deserialize_bounds {immData : Nat} {bytes : List UInt8} {p : Packet} (h : deserialize immData bytes = some p) :
    p.session < 2 ^ 6 ∧ p.sn < 2 ^ 24 := by
  unfold deserialize at h
  split at h
  · cases h
  · cases h
    exact ⟨Nat.mod_lt _ (by norm_num), Nat.mod_lt _ (by norm_num)⟩

/-! ## The packet pool -/

/-- `PacketBufferPool`: the free packets, in the order the free list hands them out. -/
structure PacketBufferPool where
  freeBuffers : List Nat
  deriving DecidableEq, Repr

namespace PacketBufferPool

/-- `construct` links the arena's slots one before the other, so the last one comes out first. -/
def construct (maxPackets : Nat) : PacketBufferPool := ⟨(List.range maxPackets).reverse⟩

/-- `allocatePacket`, `none` for its error return. -/
def allocatePacket (p : PacketBufferPool) (withGrh : Bool) : Option (PacketHandle × PacketBufferPool) :=
  match p.freeBuffers with
  | [] => none
  | slot :: rest => some (PacketHandle.setRawPacket (some slot) withGrh, ⟨rest⟩)

/-- `freePacket`, `none` for its error return. -/
def freePacket (p : PacketBufferPool) (h : PacketHandle) : Option PacketBufferPool :=
  match h.packetBuf with
  | none => none
  | some slot => some ⟨slot :: p.freeBuffers⟩

theorem allocatePacket_eq_none {p : PacketBufferPool} {g : Bool} :
    p.allocatePacket g = none ↔ p.freeBuffers = [] := by
  unfold allocatePacket
  cases p.freeBuffers <;> simp

/-- An allocated handle owns a buffer and has every other member cleared. -/
theorem allocatePacket_some {p p' : PacketBufferPool} {g : Bool} {h : PacketHandle}
    (ha : p.allocatePacket g = some (h, p')) : ∃ slot, h = PacketHandle.setRawPacket (some slot) g := by
  unfold allocatePacket at ha
  split at ha
  · cases ha
  · rename_i slot rest _
    cases ha; exact ⟨slot, rfl⟩

end PacketBufferPool

end RapidTransfer
