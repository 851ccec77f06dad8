/-
The send queues (`SendQueue` and `McastSendQueue` of `packet_manager.cpp`). Both are a ring of
packet handles filled from a secondary queue; they differ in the tail that bounds the ring, a single
`tail_` or the minimum of one tail for each replica. `SendRing` is what they share and
`SendRing.fill` the loop of `fillPrimaryQueue`.

`fill_rule` is the invariant rule of the loop: a property kept when a fragment gets its slot, and
when its payload is rejected, is kept by the whole loop, whatever the pool hands out. The loop runs
on fuel; `fill_fuel` shows that the fuel given to it is never what ends it.
-/
import RapidTransfer.Queue.Secondary
import RapidTransfer.Lib.Ring

namespace RapidTransfer

/-! ## The ring -/

structure SendRing where
  queueCapacity : Nat
  session : Nat
  head : Nat
  wndSize : Nat
  handle : Nat → PacketHandle
  secondaryQueue : SecondaryQueue

/-- The payload a packet of `mtuSize` bytes has room for, in 64-bit arithmetic. -/
def fragmentSizeOf (mtuSize : Nat) : Nat := sub64 (sub64 mtuSize pktHdrSize) grhSize

namespace SendRing

/-- The constructors assert `wnd_size <= queue_capacity`; `wnd_size_` is a `uint16_t`. A queue without slots is left
out: its first operation divides by zero. -/
def construct (raw : PacketHandle) (mtuSize queueCapacity wndSize session : Nat) : Option SendRing :=
  if wndSize ≤ queueCapacity ∧ 0 < queueCapacity then
    some
      { queueCapacity := queueCapacity
        session := session
        head := 0
        wndSize := wndSize % 2 ^ 16
        handle := fun _ => PacketHandle.construct raw
        secondaryQueue := SecondaryQueue.construct (fragmentSizeOf mtuSize) }
  else none

/-- `setWndSize` takes a `uint16_t` and clamps it to the capacity cast to one. -/
def setWndSize (r : SendRing) (wndSize : Nat) : SendRing :=
  { r with wndSize := min (wndSize % 2 ^ 16) (r.queueCapacity % 2 ^ 16) }

def getMutableEntry (r : SendRing) (index : Nat) : PacketHandle := r.handle (index % r.queueCapacity)

/-- `handle.ts = ts` on the entry of an index. -/
def setTs (r : SendRing) (index ts : Nat) : SendRing :=
  { r with handle := Ring.set r.handle (index % r.queueCapacity) { r.getMutableEntry index with ts := ts } }

/-- The loop condition of `fillPrimaryQueue`. -/
def hasRoom (r : SendRing) (tail : Nat) : Bool :=
  r.secondaryQueue.hasRemainingFragment && decide (sub64 r.head tail ≤ r.wndSize)

/-- A slot keeps its packet buffer once it has one; a fresh slot takes one from the pool. -/
def claimBuffer (h : PacketHandle) (pool : PacketBufferPool) : Option (PacketHandle × PacketBufferPool) :=
  if h.packetBuf.isSome then some (h, pool) else pool.allocatePacket false

/-- The header of the packet at `head_`. -/
def stamp (r : SendRing) (h : PacketHandle) : PacketHandle :=
  { h with session := r.session, cmd := pktCmdData, wnd := r.wndSize, sn := shortSN r.head, ts := 0 }

/-- The popped fragment goes into the slot of `head_`. -/
def append (r : SendRing) (h : PacketHandle) : SendRing :=
  { r with
    head := r.head + 1
    handle := Ring.set r.handle (r.head % r.queueCapacity) { h with inflight := true }
    secondaryQueue := (r.secondaryQueue.popFragment).2 }

/-- A rejected payload: the fragment is gone from the secondary queue, `head_` stays. -/
def spoil (r : SendRing) (h : PacketHandle) : SendRing :=
  { r with
    handle := Ring.set r.handle (r.head % r.queueCapacity) h
    secondaryQueue := (r.secondaryQueue.popFragment).2 }

/-- The payload of the next fragment set on the handle of its slot. -/
def load (r : SendRing) (h : PacketHandle) : Option PacketHandle :=
  (r.stamp h).setPayload (r.secondaryQueue.popFragment).1.addr (r.secondaryQueue.popFragment).1.length false

/-- The loop of `fillPrimaryQueue` against the tail it is bounded by. -/
def fill (tail : Nat) : Nat → SendRing → PacketBufferPool → Int × SendRing × PacketBufferPool
  | 0, r, pool => (0, r, pool)
  | fuel + 1, r, pool =>
    if r.hasRoom tail then
      match claimBuffer (r.getMutableEntry r.head) pool with
      | none => (0, r, pool)
      | some (h, pool) =>
        match r.load h with
        | none => (-1, r.spoil (r.stamp h), pool)
        | some h => fill tail fuel (r.append h) pool
    else (0, r, pool)

/-! ## The fill loop -/

theorem claimBuffer_some {h h' : PacketHandle} {p p' : PacketBufferPool} (hc : claimBuffer h p = some (h', p')) :
    h'.packetBuf.isSome = true := by
  unfold claimBuffer at hc
  split at hc
  · rename_i hb; cases hc; exact hb
  · obtain ⟨slot, rfl⟩ := PacketBufferPool.allocatePacket_some hc; rfl

/-- The invariant rule of the fill loop. -/
theorem fill_rule {P : SendRing → Prop} {tail : Nat}
    (happ : ∀ r h h' pool pool', P r → r.hasRoom tail = true →
      claimBuffer (r.getMutableEntry r.head) pool = some (h, pool') → r.load h = some h' → P (r.append h'))
    (hspoil : ∀ r h pool pool', P r → r.hasRoom tail = true →
      claimBuffer (r.getMutableEntry r.head) pool = some (h, pool') → r.load h = none → P (r.spoil (r.stamp h))) :
    ∀ (fuel : Nat) (r : SendRing) (pool : PacketBufferPool), P r → P (fill tail fuel r pool).2.1
  | 0, r, pool, hr => hr
  | fuel + 1, r, pool, hr => by
    unfold fill
    split
    · rename_i hroom
      split
      · exact hr
      · rename_i h pool' hclaim
        split
        · rename_i hload; exact hspoil r h pool pool' hr hroom hclaim hload
        · rename_i h' hload
          exact fill_rule happ hspoil fuel (r.append h') pool' (happ r h h' pool pool' hr hroom hclaim hload)
    · exact hr

/-- More fuel changes nothing: the window closes before the fuel runs out. -/
theorem fill_fuel {tail : Nat} : ∀ (n k : Nat) (r : SendRing) (pool : PacketBufferPool),
    r.wndSize < 2 ^ 16 → r.wndSize < sub64 r.head tail + n → fill tail n r pool = fill tail (n + k) r pool
  | 0, k, r, pool, _, hn => by
    have hroom : r.hasRoom tail = false := by
      unfold hasRoom; simp; omega
    cases k with
    | zero => rfl
    | succ k => simp [fill, hroom]
  | n + 1, k, r, pool, hw, hn => by
    rw [show n + 1 + k = (n + k) + 1 by omega]
    unfold fill
    split
    · rename_i hroom
      have hle : sub64 r.head tail ≤ r.wndSize := by
        unfold hasRoom at hroom; simp only [Bool.and_eq_true, decide_eq_true_eq] at hroom; exact hroom.2
      have hsucc : sub64 (r.head + 1) tail = sub64 r.head tail + 1 := by unfold sub64 at *; omega
      cases claimBuffer (r.getMutableEntry r.head) pool with
      | none => rfl
      | some c =>
        obtain ⟨h, pool'⟩ := c
        simp only
        cases r.load h with
        | none => rfl
        | some h' => exact fill_fuel n k (r.append h') pool' hw (by simp only [append]; omega)
    · rfl

theorem load_eq {r : SendRing} {h h' : PacketHandle} (hl : r.load h = some h') :
    h' = { r.stamp h with dataBuf := (r.secondaryQueue.popFragment).1.addr,
                          dataLen := (r.secondaryQueue.popFragment).1.length % 2 ^ 32 } := by
  unfold load PacketHandle.setPayload at hl
  split at hl
  · cases hl
  · split at hl
    · cases hl
    · cases hl; rfl

/-- A payload with an address is accepted by a slot that owns a buffer. -/
theorem load_ne_none {r : SendRing} {h : PacketHandle} (hb : h.packetBuf.isSome = true)
    (ha : (r.secondaryQueue.popFragment).1.addr ≠ 0) : r.load h ≠ none := by
  unfold load PacketHandle.setPayload
  rw [if_neg (by simp only [stamp]; intro hn; rw [hn] at hb; cases hb), if_neg (by tauto)]
  simp

/-- The fill loop leaves the window, the capacity and the fragment counter alone. -/
theorem fill_frame (tail fuel : Nat) (r : SendRing) (pool : PacketBufferPool) :
    (fill tail fuel r pool).2.1.wndSize = r.wndSize ∧
      (fill tail fuel r pool).2.1.queueCapacity = r.queueCapacity ∧
      (fill tail fuel r pool).2.1.secondaryQueue.fragmentId = r.secondaryQueue.fragmentId ∧
      (fill tail fuel r pool).2.1.secondaryQueue.fragmentSize = r.secondaryQueue.fragmentSize ∧
      r.head ≤ (fill tail fuel r pool).2.1.head := by
  have hpop := fun q : SecondaryQueue => q.popFragment_fields
  refine fill_rule (P := fun r' => r'.wndSize = r.wndSize ∧ r'.queueCapacity = r.queueCapacity ∧
    r'.secondaryQueue.fragmentId = r.secondaryQueue.fragmentId ∧
    r'.secondaryQueue.fragmentSize = r.secondaryQueue.fragmentSize ∧ r.head ≤ r'.head) ?_ ?_ fuel r pool
    ⟨rfl, rfl, rfl, rfl, le_refl _⟩
  · rintro r' h h' - - ⟨h1, h2, h3, h4, h5⟩ - - -
    exact ⟨h1, h2, (hpop _).1.trans h3, (hpop _).2.trans h4, by simp only [append]; omega⟩
  · rintro r' h - - ⟨h1, h2, h3, h4, h5⟩ - - -
    exact ⟨h1, h2, (hpop _).1.trans h3, (hpop _).2.trans h4, h5⟩

end SendRing

/-! ## Cumulative acknowledgements -/

/-- How `markCompleted` moves a tail: the index of `[tail, head]` whose low 24 bits are `ackSn`.
case 1: XXX tail_ ... ack_sn ... head_ XXX
case 2: ... ack_sn ... head  XXX tail ... -/
def ackTail (tail head ackSn : Nat) : Nat :=
  let t := shortSN tail
  let h := shortSN head
  if t ≤ h ∧ t ≤ ackSn ∧ ackSn ≤ h then tail + (ackSn - t)
  else if h < t ∧ ackSn ≤ h then head - (h - ackSn)
  else if h < t ∧ t ≤ ackSn then tail + (ackSn - t)
  else tail

theorem ackTail_eq_unwrap (tail head ackSn : Nat) : ackTail tail head ackSn = Serial.unwrap (2 ^ 24) tail head ackSn :=
  rfl

/-! ## The unicast send queue -/

structure SendQueue where
  ring : SendRing
  tail : Nat

namespace SendQueue

def construct (raw : PacketHandle) (mtuSize queueCapacity wndSize session : Nat) : Option SendQueue :=
  (SendRing.construct raw mtuSize queueCapacity wndSize session).map (⟨·, 0⟩)

def fillPrimaryQueue (q : SendQueue) (pool : PacketBufferPool) : Int × SendQueue × PacketBufferPool :=
  let (ret, ring, pool) := SendRing.fill q.tail (q.ring.wndSize + 1) q.ring pool
  (ret, { q with ring := ring }, pool)

/-- `push`: the return value, `last_sn`, the queue and the pool. -/
def push (q : SendQueue) (sliceList : List Buffer) (pool : PacketBufferPool) :
    Option (Int × Nat × SendQueue × PacketBufferPool) :=
  match q.ring.secondaryQueue.push sliceList with
  | none => none
  | some (fragmentId, secondaryQueue) =>
    let lastSn := shortSN fragmentId.2
    let (ret, q, pool) := fillPrimaryQueue { q with ring := { q.ring with secondaryQueue := secondaryQueue } } pool
    some (ret, lastSn, q, pool)

theorem push_some {q q' : SendQueue} {bufs : List Buffer} {pool pool' : PacketBufferPool} {ret : Int} {sn : Nat}
    (h : q.push bufs pool = some (ret, sn, q', pool')) :
    ∃ ids sq, q.ring.secondaryQueue.push bufs = some (ids, sq) ∧ sn = shortSN ids.2 ∧
      fillPrimaryQueue { q with ring := { q.ring with secondaryQueue := sq } } pool = (ret, q', pool') := by
  unfold push at h
  split at h
  · cases h
  · rename_i ids sq hsq
    cases h
    exact ⟨ids, sq, hsq, rfl, rfl⟩

/-- The number a push returns is the one its queue has reached. -/
theorem push_lastSn {q q' : SendQueue} {bufs : List Buffer} {pool pool' : PacketBufferPool} {ret : Int} {sn : Nat}
    (h : q.push bufs pool = some (ret, sn, q', pool')) : sn = shortSN q'.ring.secondaryQueue.fragmentId := by
  obtain ⟨ids, sq, hsq, hsn, hfill⟩ := push_some h
  have hid := (SendRing.fill_frame q.tail (q.ring.wndSize + 1) { q.ring with secondaryQueue := sq } pool).2.2.1
  rw [hsn, show q'.ring = _ from congrArg (·.2.1.ring) hfill.symm]
  exact congrArg shortSN (hid.trans (SecondaryQueue.push_some hsq).2.1).symm

theorem push_tail {q q' : SendQueue} {bufs : List Buffer} {pool pool' : PacketBufferPool} {ret : Int} {sn : Nat}
    (h : q.push bufs pool = some (ret, sn, q', pool')) : q'.tail = q.tail := by
  obtain ⟨ids, sq, -, -, hfill⟩ := push_some h
  rw [show q' = _ from congrArg (·.2.1) hfill.symm]
  rfl

def markCompleted (q : SendQueue) (ackSn : Nat) (pool : PacketBufferPool) : Int × SendQueue × PacketBufferPool :=
  fillPrimaryQueue { q with tail := ackTail q.tail q.ring.head ackSn } pool

def getNextSN (q : SendQueue) : Nat := shortSN q.ring.head
def getAckSN (q : SendQueue) : Nat := shortSN q.tail
def setWndSize (q : SendQueue) (wndSize : Nat) : SendQueue := { q with ring := q.ring.setWndSize wndSize }

end SendQueue

/-! ## The multicast send queue -/

structure McastSendQueue where
  ring : SendRing
  tailList : List Nat

namespace McastSendQueue

def construct (raw : PacketHandle) (mtuSize queueCapacity wndSize session replicaNum : Nat) :
    Option McastSendQueue :=
  (SendRing.construct raw mtuSize queueCapacity wndSize session).map (⟨·, List.replicate replicaNum 0⟩)

/-- `getMinTailIndex`: the least tail, `UINT64_MAX` without replicas. -/
def getMinTailIndex (q : McastSendQueue) : Nat := q.tailList.min?.getD (2 ^ 64 - 1)

/-- The source's loop starts from `UINT64_MAX`, which no counter exceeds. -/
theorem getMinTailIndex_eq_foldl {q : McastSendQueue} (h : ∀ t ∈ q.tailList, t < 2 ^ 64) :
    q.getMinTailIndex = q.tailList.foldl min (2 ^ 64 - 1) := by
  unfold getMinTailIndex
  cases hl : q.tailList with
  | nil => rfl
  | cons t ts =>
    have ht := h t (by simp [hl])
    rw [List.min?_cons', List.foldl_cons, Nat.min_eq_right (by omega)]
    rfl

theorem getMinTailIndex_le {q : McastSendQueue} {t : Nat} (h : t ∈ q.tailList) : q.getMinTailIndex ≤ t := by
  unfold getMinTailIndex
  cases hm : q.tailList.min? with
  | none => rw [List.min?_eq_none_iff.1 hm] at h; cases h
  | some m => exact (List.min?_eq_some_iff.1 hm).2 t h

theorem getMinTailIndex_mem {q : McastSendQueue} (h : q.tailList ≠ []) : q.getMinTailIndex ∈ q.tailList := by
  unfold getMinTailIndex
  cases hm : q.tailList.min? with
  | none => exact absurd (List.min?_eq_none_iff.1 hm) h
  | some m => exact (List.min?_eq_some_iff.1 hm).1

/-- Without an ACK every replica is at the start. -/
theorem getMinTailIndex_replicate (r : SendRing) {n : Nat} (hn : n ≠ 0) :
    getMinTailIndex ⟨r, List.replicate n 0⟩ = 0 :=
  List.eq_of_mem_replicate (getMinTailIndex_mem (q := ⟨r, List.replicate n 0⟩) (by simpa using hn))

theorem tail_mem {q : McastSendQueue} {k : Nat} (hk : k < q.tailList.length) :
    q.tailList.getD k 0 ∈ q.tailList := by
  rw [← List.getElem_eq_getD (h := hk) 0]
  exact List.getElem_mem hk

/-- One tail moves up, not beyond `head_`: all stay behind it, and the least one moves up or not at all. -/
theorem raise_tail {q : McastSendQueue} {k tail : Nat} (hk : k < q.tailList.length)
    (htails : ∀ t ∈ q.tailList, t ≤ q.ring.head) (hup : q.tailList.getD k 0 ≤ tail) (hhead : tail ≤ q.ring.head) :
    q.tailList.set k tail ≠ [] ∧ (∀ t ∈ q.tailList.set k tail, t ≤ q.ring.head) ∧
      q.getMinTailIndex ≤ getMinTailIndex ⟨q.ring, q.tailList.set k tail⟩ ∧
      getMinTailIndex ⟨q.ring, q.tailList.set k tail⟩ ≤ q.ring.head := by
  have hbetween : ∀ t ∈ q.tailList.set k tail, q.getMinTailIndex ≤ t ∧ t ≤ q.ring.head := by
    intro t ht
    rcases List.mem_or_eq_of_mem_set ht with ht | rfl
    · exact ⟨getMinTailIndex_le ht, htails t ht⟩
    · exact ⟨(getMinTailIndex_le (tail_mem hk)).trans hup, hhead⟩
  have hne : q.tailList.set k tail ≠ [] := by
    rw [← List.length_pos_iff_ne_nil, List.length_set]
    omega
  exact ⟨hne, fun t ht => (hbetween t ht).2, hbetween _ (getMinTailIndex_mem (q := ⟨q.ring, _⟩) hne)⟩

def fillPrimaryQueue (q : McastSendQueue) (pool : PacketBufferPool) : Int × McastSendQueue × PacketBufferPool :=
  let (ret, ring, pool) := SendRing.fill q.getMinTailIndex (q.ring.wndSize + 1) q.ring pool
  (ret, { q with ring := ring }, pool)

def push (q : McastSendQueue) (sliceList : List Buffer) (pool : PacketBufferPool) :
    Option (Int × Nat × McastSendQueue × PacketBufferPool) :=
  match q.ring.secondaryQueue.push sliceList with
  | none => none
  | some (fragmentId, secondaryQueue) =>
    let lastSn := shortSN fragmentId.2
    let (ret, q, pool) := fillPrimaryQueue { q with ring := { q.ring with secondaryQueue := secondaryQueue } } pool
    some (ret, lastSn, q, pool)

theorem push_some {q q' : McastSendQueue} {bufs : List Buffer} {pool pool' : PacketBufferPool} {ret : Int} {sn : Nat}
    (h : q.push bufs pool = some (ret, sn, q', pool')) :
    ∃ ids sq, q.ring.secondaryQueue.push bufs = some (ids, sq) ∧ sn = shortSN ids.2 ∧
      fillPrimaryQueue { q with ring := { q.ring with secondaryQueue := sq } } pool = (ret, q', pool') := by
  unfold push at h
  split at h
  · cases h
  · rename_i ids sq hsq
    cases h
    exact ⟨ids, sq, hsq, rfl, rfl⟩

/-- The number a push returns is the one its queue has reached. -/
theorem push_lastSn {q q' : McastSendQueue} {bufs : List Buffer} {pool pool' : PacketBufferPool} {ret : Int} {sn : Nat}
    (h : q.push bufs pool = some (ret, sn, q', pool')) : sn = shortSN q'.ring.secondaryQueue.fragmentId := by
  obtain ⟨ids, sq, hsq, hsn, hfill⟩ := push_some h
  have hid := (SendRing.fill_frame q.getMinTailIndex
    (q.ring.wndSize + 1) { q.ring with secondaryQueue := sq } pool).2.2.1
  rw [hsn, show q'.ring = _ from congrArg (·.2.1.ring) hfill.symm]
  exact congrArg shortSN (hid.trans (SecondaryQueue.push_some hsq).2.1).symm

theorem push_tailList {q q' : McastSendQueue} {bufs : List Buffer} {pool pool' : PacketBufferPool}
    {ret : Int} {sn : Nat} (h : q.push bufs pool = some (ret, sn, q', pool')) : q'.tailList = q.tailList := by
  obtain ⟨ids, sq, -, -, hfill⟩ := push_some h
  rw [show q' = _ from congrArg (·.2.1) hfill.symm]
  rfl

def markCompleted (q : McastSendQueue) (index : Int) (ackSn : Nat) (pool : PacketBufferPool) :
    Int × McastSendQueue × PacketBufferPool :=
  if index < 0 ∨ (q.tailList.length : Int) ≤ index then (-1, q, pool)
  else
    let k := index.toNat
    fillPrimaryQueue { q with tailList := q.tailList.set k (ackTail (q.tailList.getD k 0) q.ring.head ackSn) } pool

theorem length_markCompleted (q : McastSendQueue) (index : Int) (ackSn : Nat) (pool : PacketBufferPool) :
    (q.markCompleted index ackSn pool).2.1.tailList.length = q.tailList.length := by
  unfold markCompleted
  split
  · rfl
  · exact List.length_set

def getNextSN (q : McastSendQueue) : Nat := shortSN q.ring.head

/-- `getAckSN`: an index outside the list, as the default -1 is, asks for the minimum. -/
def getAckSN (q : McastSendQueue) (index : Int) : Nat :=
  if index < 0 ∨ (q.tailList.length : Int) ≤ index then shortSN q.getMinTailIndex
  else shortSN (q.tailList.getD index.toNat 0)

def setWndSize (q : McastSendQueue) (wndSize : Nat) : McastSendQueue := { q with ring := q.ring.setWndSize wndSize }

end McastSendQueue

end RapidTransfer
