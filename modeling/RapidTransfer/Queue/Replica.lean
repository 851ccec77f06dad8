/-
A multicast send queue with one replica next to a unicast send queue (`McastSendQueue`, `SendQueue`). The two classes
repeat the same code over different tails. Here both get the same calls, each with a packet pool of its own, and what
their callers can see of them is compared after every call.

The pools hand out different packet buffers, and a slot without a buffer holds whatever its memory held. So the queues
are related by `Alike`: their slots agree once they own buffers, and their pools have the same number left.
-/
import RapidTransfer.Queue.Send
import RapidTransfer.Lib.Runs

namespace RapidTransfer

/-! ## Slots and rings -/

/-- Both handles own a buffer or neither does, and if they do they agree in the rest. -/
structure PacketHandle.Alike (h h' : PacketHandle) : Prop where
  buffer : h.packetBuf.isSome = h'.packetBuf.isSome
  rest : h.packetBuf.isSome = true → { h with packetBuf := none } = { h' with packetBuf := none }

/-- Pools with as many packets left. -/
def PacketBufferPool.Alike (p p' : PacketBufferPool) : Prop := p.freeBuffers.length = p'.freeBuffers.length

structure SendRing.Alike (r r' : SendRing) : Prop where
  queueCapacity : r.queueCapacity = r'.queueCapacity
  session : r.session = r'.session
  head : r.head = r'.head
  wndSize : r.wndSize = r'.wndSize
  secondaryQueue : r.secondaryQueue = r'.secondaryQueue
  handle : ∀ k, (r.handle k).Alike (r'.handle k)
  owned : ∀ i < r.head, (r.getMutableEntry i).packetBuf.isSome = true

namespace SendRing

variable {r r' : SendRing} {h h' : PacketHandle} {pool pool' : PacketBufferPool}

theorem claimBuffer_alike (hh : h.Alike h') (hp : pool.Alike pool') :
    Option.Rel (fun a b => a.1.packetBuf.isSome = true ∧ a.1.Alike b.1 ∧ a.2.Alike b.2) (claimBuffer h pool)
      (claimBuffer h' pool') := by
  unfold claimBuffer
  rw [← hh.buffer]
  split
  · rename_i hb
    exact .some ⟨hb, hh, hp⟩
  · unfold PacketBufferPool.Alike at hp
    unfold PacketBufferPool.allocatePacket
    cases hf : pool.freeBuffers with
    | nil =>
      rw [hf, List.length_nil, eq_comm, List.length_eq_zero_iff] at hp
      rw [hp]
      exact .none
    | cons slot rest =>
      cases hf' : pool'.freeBuffers with
      | nil =>
        rw [hf, hf'] at hp
        cases hp
      | cons slot' rest' =>
        rw [hf, hf'] at hp
        exact .some ⟨rfl, ⟨rfl, fun _ => rfl⟩, Nat.succ.inj hp⟩

theorem load_alike (hr : r.Alike r') (hh : h.Alike h') (hb : h.packetBuf.isSome = true) :
    Option.Rel (fun a b => a.packetBuf.isSome = true ∧ a.Alike b) (r.load h) (r'.load h') := by
  have hb' : h'.packetBuf.isSome = true := hh.buffer ▸ hb
  have hrest := hh.rest hb
  simp only [PacketHandle.mk.injEq, true_and] at hrest
  unfold load PacketHandle.setPayload stamp
  rw [← hr.secondaryQueue, ← hr.session, ← hr.wndSize, ← hr.head,
    if_neg (fun hn : h.packetBuf = none => by rw [hn] at hb; cases hb),
    if_neg (fun hn : h'.packetBuf = none => by rw [hn] at hb'; cases hb')]
  split
  · exact .none
  · refine .some ⟨hb, hh.buffer, fun _ => ?_⟩
    simp [hrest]

namespace Alike

theorem getMutableEntry (hr : r.Alike r') (i : Nat) : (r.getMutableEntry i).Alike (r'.getMutableEntry i) := by
  unfold SendRing.getMutableEntry
  rw [← hr.queueCapacity]
  exact hr.handle _

theorem hasRoom (hr : r.Alike r') (tail : Nat) : r.hasRoom tail = r'.hasRoom tail := by
  unfold SendRing.hasRoom
  rw [hr.secondaryQueue, hr.head, hr.wndSize]

theorem setSlot (hr : r.Alike r') (hh : h.Alike h') (k : Nat) :
    ∀ j, (Ring.set r.handle k h j).Alike (Ring.set r'.handle k h' j) := by
  intro j
  rcases eq_or_ne j k with rfl | hj
  · rw [Ring.set_same, Ring.set_same]
    exact hh
  · rw [Ring.set_of_ne _ _ hj, Ring.set_of_ne _ _ hj]
    exact hr.handle j

theorem setSlot_owned (hr : r.Alike r') (hb : h.packetBuf.isSome = true) {i : Nat} (hi : i ≤ r.head) :
    (Ring.set r.handle (r.head % r.queueCapacity) h (i % r.queueCapacity)).packetBuf.isSome = true := by
  by_cases hs : i % r.queueCapacity = r.head % r.queueCapacity
  · rw [hs, Ring.set_same]
    exact hb
  · rw [Ring.set_of_ne _ _ hs]
    refine hr.owned i (lt_of_le_of_ne hi ?_)
    rintro rfl
    exact hs rfl

theorem append (hr : r.Alike r') (hh : h.Alike h') (hb : h.packetBuf.isSome = true) :
    (r.append h).Alike (r'.append h') := by
  have hset : PacketHandle.Alike { h with inflight := true } { h' with inflight := true } := by
    have hrest := hh.rest hb
    simp only [PacketHandle.mk.injEq, true_and] at hrest
    exact ⟨hh.buffer, fun _ => by simp [hrest]⟩
  refine ⟨hr.queueCapacity, hr.session, ?_, hr.wndSize, ?_, ?_, ?_⟩
  · simp only [SendRing.append, hr.head]
  · simp only [SendRing.append, hr.secondaryQueue]
  · simp only [SendRing.append, ← hr.head, ← hr.queueCapacity]
    exact hr.setSlot hset _
  · intro i hi
    exact hr.setSlot_owned (h := { h with inflight := true }) hb (Nat.lt_succ_iff.1 hi)

theorem spoil (hr : r.Alike r') (hh : h.Alike h') (hb : h.packetBuf.isSome = true) :
    (r.spoil h).Alike (r'.spoil h') := by
  refine ⟨hr.queueCapacity, hr.session, hr.head, hr.wndSize, ?_, ?_, ?_⟩
  · simp only [SendRing.spoil, hr.secondaryQueue]
  · simp only [SendRing.spoil, ← hr.head, ← hr.queueCapacity]
    exact hr.setSlot hh _
  · intro i hi
    exact hr.setSlot_owned hb (le_of_lt hi)

theorem stamp (hr : r.Alike r') (hh : h.Alike h') (hb : h.packetBuf.isSome = true) :
    (r.stamp h).Alike (r'.stamp h') := by
  have hrest := hh.rest hb
  simp only [PacketHandle.mk.injEq, true_and] at hrest
  refine ⟨hh.buffer, fun _ => ?_⟩
  simp [SendRing.stamp, hrest, hr.session, hr.wndSize, hr.head]

end Alike

/-- The fill loop runs alike on alike rings. -/
theorem fill_alike (tail : Nat) : ∀ (n : Nat) (r r' : SendRing) (pool pool' : PacketBufferPool), r.Alike r' →
    pool.Alike pool' → (fill tail n r pool).1 = (fill tail n r' pool').1 ∧
      (fill tail n r pool).2.1.Alike (fill tail n r' pool').2.1 ∧
      (fill tail n r pool).2.2.Alike (fill tail n r' pool').2.2
  | 0, r, r', pool, pool', hr, hp => ⟨rfl, hr, hp⟩
  | n + 1, r, r', pool, pool', hr, hp => by
    unfold fill
    rw [← hr.hasRoom tail]
    split
    · have hclaim := claimBuffer_alike (hr.getMutableEntry r.head) hp
      rw [← hr.head]
      generalize claimBuffer (r.getMutableEntry r.head) pool = x,
        claimBuffer (r'.getMutableEntry r.head) pool' = y at hclaim
      cases hclaim with
      | none => exact ⟨rfl, hr, hp⟩
      | @some a b hab =>
        obtain ⟨hb, hh, hp⟩ := hab
        have hload := load_alike hr hh hb
        simp only
        generalize r.load a.1 = x, r'.load b.1 = y at hload
        cases hload with
        | none => exact ⟨rfl, hr.spoil (hr.stamp hh hb) hb, hp⟩
        | some hab => exact fill_alike tail n _ _ _ _ (hr.append hab.2 hab.1) hp
    · exact ⟨rfl, hr, hp⟩

end SendRing

/-! ## The two queues -/

/-- The calls both get; `index` is 0 for the multicast queue. -/
inductive SendOp where
  | push (sliceList : List Buffer)
  | markCompleted (ackSn : Nat)
  | setWndSize (wndSize : Nat)
  deriving DecidableEq, Repr

/-- What a caller sees after a call: what it returned, the index range, the numbers, the window, and the number and
payload of every packet of the range. -/
structure SendView where
  ret : Option Int
  lastSn : Option Nat
  head : Nat
  tail : Nat
  nextSN : Nat
  ackSN : Nat
  wndSize : Nat
  slots : List (Nat × Buffer)
  deriving DecidableEq, Repr

/-- The packets of `[tail, head)`. -/
def SendRing.slots (r : SendRing) (tail : Nat) : List (Nat × Buffer) :=
  (List.range' tail (r.head - tail)).map fun i =>
    ((r.getMutableEntry i).sn, ⟨(r.getMutableEntry i).dataBuf, (r.getMutableEntry i).dataLen⟩)

namespace SendQueue

/-- `getIndexRange`: head and tail. -/
def getIndexRange (q : SendQueue) : Nat × Nat := (q.ring.head, q.tail)

def view (q : SendQueue) (ret : Option Int) (lastSn : Option Nat) : SendView :=
  { ret := ret, lastSn := lastSn, head := q.getIndexRange.1, tail := q.getIndexRange.2, nextSN := q.getNextSN,
    ackSN := q.getAckSN, wndSize := q.ring.wndSize, slots := q.ring.slots q.getIndexRange.2 }

/-- A call on the queue and its pool. -/
def call (s : SendQueue × PacketBufferPool) : SendOp → Option (SendView × SendQueue × PacketBufferPool)
  | .push sliceList => (s.1.push sliceList s.2).map fun r => (r.2.2.1.view (some r.1) (some r.2.1), r.2.2.1, r.2.2.2)
  | .markCompleted ackSn =>
    let r := s.1.markCompleted ackSn s.2
    some (r.2.1.view (some r.1) none, r.2.1, r.2.2)
  | .setWndSize wndSize => some ((s.1.setWndSize wndSize).view none none, s.1.setWndSize wndSize, s.2)

end SendQueue

namespace McastSendQueue

def getIndexRange (q : McastSendQueue) : Nat × Nat := (q.ring.head, q.getMinTailIndex)

def view (q : McastSendQueue) (index : Int) (ret : Option Int) (lastSn : Option Nat) : SendView :=
  { ret := ret, lastSn := lastSn, head := q.getIndexRange.1, tail := q.getIndexRange.2, nextSN := q.getNextSN,
    ackSN := q.getAckSN index, wndSize := q.ring.wndSize, slots := q.ring.slots q.getIndexRange.2 }

/-- A call on the queue and its pool; `index` is the argument of `getAckSN` in what is seen of it. -/
def call (index : Int) (s : McastSendQueue × PacketBufferPool) :
    SendOp → Option (SendView × McastSendQueue × PacketBufferPool)
  | .push sliceList =>
    (s.1.push sliceList s.2).map fun r => (r.2.2.1.view index (some r.1) (some r.2.1), r.2.2.1, r.2.2.2)
  | .markCompleted ackSn =>
    let r := s.1.markCompleted 0 ackSn s.2
    some (r.2.1.view index (some r.1) none, r.2.1, r.2.2)
  | .setWndSize wndSize => some ((s.1.setWndSize wndSize).view index none none, s.1.setWndSize wndSize, s.2)

end McastSendQueue

/-- A unicast queue and a multicast queue with one replica that are the same queue. -/
structure SendQueue.Alike (q : SendQueue) (q' : McastSendQueue) : Prop where
  ring : q.ring.Alike q'.ring
  tail : q'.tailList = [q.tail]

namespace SendQueue.Alike

variable {q : SendQueue} {q' : McastSendQueue} {pool pool' : PacketBufferPool}

theorem getMinTailIndex (h : q.Alike q') : q'.getMinTailIndex = q.tail := by
  unfold McastSendQueue.getMinTailIndex
  rw [h.tail]
  rfl

/-- With one replica every argument of `getAckSN` asks for the same tail. -/
theorem getAckSN (h : q.Alike q') (index : Int) : q'.getAckSN index = q.getAckSN := by
  unfold McastSendQueue.getAckSN
  split
  · rw [h.getMinTailIndex]
    rfl
  · rename_i hindex
    rw [h.tail, List.length_singleton] at hindex
    obtain rfl : index = 0 := by omega
    rw [h.tail]
    rfl

theorem slots (h : q.Alike q') : q'.ring.slots q.tail = q.ring.slots q.tail := by
  unfold SendRing.slots
  rw [← h.ring.head]
  refine List.map_congr_left fun i hi => ?_
  obtain ⟨hge, hlt⟩ := List.mem_range'_1.1 hi
  have hrest := (h.ring.getMutableEntry i).rest (h.ring.owned i (by omega))
  simp only [PacketHandle.mk.injEq, true_and] at hrest
  simp [hrest]

theorem view (h : q.Alike q') (index : Int) (ret : Option Int) (lastSn : Option Nat) :
    q.view ret lastSn = q'.view index ret lastSn := by
  unfold SendQueue.view McastSendQueue.view SendQueue.getIndexRange McastSendQueue.getIndexRange SendQueue.getNextSN
    McastSendQueue.getNextSN
  simp only [h.getMinTailIndex, h.getAckSN index, h.slots, h.ring.head, h.ring.wndSize]

theorem fillPrimaryQueue (h : q.Alike q') (hp : pool.Alike pool') :
    (q.fillPrimaryQueue pool).1 = (q'.fillPrimaryQueue pool').1 ∧
      (q.fillPrimaryQueue pool).2.1.Alike (q'.fillPrimaryQueue pool').2.1 ∧
      (q.fillPrimaryQueue pool).2.2.Alike (q'.fillPrimaryQueue pool').2.2 := by
  unfold SendQueue.fillPrimaryQueue McastSendQueue.fillPrimaryQueue
  rw [h.getMinTailIndex, ← h.ring.wndSize]
  obtain ⟨hret, hring, hpool⟩ := SendRing.fill_alike q.tail (q.ring.wndSize + 1) _ _ _ _ h.ring hp
  exact ⟨hret, ⟨hring, h.tail⟩, hpool⟩

theorem push (h : q.Alike q') (hp : pool.Alike pool') (sliceList : List Buffer) :
    Option.Rel (fun a b => a.1 = b.1 ∧ a.2.1 = b.2.1 ∧ a.2.2.1.Alike b.2.2.1 ∧ a.2.2.2.Alike b.2.2.2)
      (q.push sliceList pool) (q'.push sliceList pool') := by
  unfold SendQueue.push McastSendQueue.push
  rw [← h.ring.secondaryQueue]
  cases q.ring.secondaryQueue.push sliceList with
  | none => exact .none
  | some r =>
    obtain ⟨ids, sq⟩ := r
    have hpushed : SendQueue.Alike { q with ring := { q.ring with secondaryQueue := sq } }
        { q' with ring := { q'.ring with secondaryQueue := sq } } :=
      ⟨⟨h.ring.queueCapacity, h.ring.session, h.ring.head, h.ring.wndSize, rfl, h.ring.handle, h.ring.owned⟩, h.tail⟩
    obtain ⟨hret, hq, hpool⟩ := hpushed.fillPrimaryQueue hp
    exact .some ⟨hret, rfl, hq, hpool⟩

/-- One call keeps the queues alike and shows the same on both. -/
theorem call (h : q.Alike q') (hp : pool.Alike pool') (index : Int) (op : SendOp) :
    Option.Rel (fun a b => a.1 = b.1 ∧ a.2.1.Alike b.2.1 ∧ a.2.2.Alike b.2.2) (SendQueue.call (q, pool) op)
      (McastSendQueue.call index (q', pool') op) := by
  cases op with
  | push sliceList =>
    have hpush := h.push hp sliceList
    unfold SendQueue.call McastSendQueue.call
    simp only
    generalize q.push sliceList pool = x, q'.push sliceList pool' = y at hpush
    cases hpush with
    | none => exact .none
    | some hab =>
      obtain ⟨hret, hsn, hq, hpool⟩ := hab
      refine .some ⟨?_, hq, hpool⟩
      simp only
      rw [hq.view index, hret, hsn]
  | markCompleted ackSn =>
    have hacked : SendQueue.Alike { q with tail := ackTail q.tail q.ring.head ackSn }
        { q' with tailList := q'.tailList.set 0 (ackTail (q'.tailList.getD 0 0) q'.ring.head ackSn) } := by
      refine ⟨h.ring, ?_⟩
      simp only
      rw [h.tail, ← h.ring.head]
      rfl
    have hmark : q'.markCompleted 0 ackSn pool' = McastSendQueue.fillPrimaryQueue
        { q' with tailList := q'.tailList.set 0 (ackTail (q'.tailList.getD 0 0) q'.ring.head ackSn) } pool' := by
      unfold McastSendQueue.markCompleted
      rw [h.tail, if_neg (by simp)]
      rfl
    obtain ⟨hret, hq, hpool⟩ := hacked.fillPrimaryQueue hp
    unfold SendQueue.call McastSendQueue.call
    simp only
    rw [hmark]
    refine .some ⟨?_, hq, hpool⟩
    unfold SendQueue.markCompleted
    simp only
    rw [hq.view index, hret]
  | setWndSize wndSize =>
    have hset : (q.setWndSize wndSize).Alike (q'.setWndSize wndSize) := by
      refine ⟨⟨h.ring.queueCapacity, h.ring.session, h.ring.head, ?_, h.ring.secondaryQueue, h.ring.handle,
        h.ring.owned⟩, h.tail⟩
      simp only [SendQueue.setWndSize, McastSendQueue.setWndSize, SendRing.setWndSize, h.ring.queueCapacity]
    exact .some ⟨hset.view index none none, hset, hp⟩

/-- The constructors, over whatever the memory of the slots held. -/
theorem construct (raw raw' : PacketHandle) (mtuSize queueCapacity wndSize session : Nat) :
    Option.Rel SendQueue.Alike (SendQueue.construct raw mtuSize queueCapacity wndSize session)
      (McastSendQueue.construct raw' mtuSize queueCapacity wndSize session 1) := by
  unfold SendQueue.construct McastSendQueue.construct SendRing.construct
  split
  · exact .some ⟨⟨rfl, rfl, rfl, rfl, rfl, fun _ => ⟨rfl, fun hb => by cases hb⟩,
      fun i hi => absurd hi (Nat.not_lt_zero i)⟩, rfl⟩
  · exact .none

end SendQueue.Alike

/-- A multicast send queue with one replica shows its callers, call by call, what a unicast send queue shows, whatever
argument `getAckSN` is asked with. -/
theorem one_replica_is_unicast (raw raw' : PacketHandle) (mtuSize queueCapacity wndSize session : Nat)
    (pool pool' : PacketBufferPool) (hpool : pool.freeBuffers.length = pool'.freeBuffers.length) (index : Int)
    (ops : List SendOp) :
    ((SendQueue.construct raw mtuSize queueCapacity wndSize session).map fun q =>
        Runs.trace SendQueue.call (q, pool) ops) =
      (McastSendQueue.construct raw' mtuSize queueCapacity wndSize session 1).map fun q =>
        Runs.trace (McastSendQueue.call index) (q, pool') ops := by
  have hconstruct := SendQueue.Alike.construct raw raw' mtuSize queueCapacity wndSize session
  generalize SendQueue.construct raw mtuSize queueCapacity wndSize session = x,
    McastSendQueue.construct raw' mtuSize queueCapacity wndSize session 1 = y at hconstruct
  cases hconstruct with
  | none => rfl
  | @some q q' hq =>
    have htrace := Runs.trace_eq_of_related
      (R := fun (s : SendQueue × PacketBufferPool) (t : McastSendQueue × PacketBufferPool) => s.1.Alike t.1 ∧
        s.2.Alike t.2)
      (fun s t op hst => SendQueue.Alike.call hst.1 hst.2 index op) ops (q, pool) (q', pool') ⟨hq, hpool⟩
    exact congrArg some htrace

/-- Three fragments through a window of one and pools of two packets, of different addresses. -/
theorem three_fragments_alike :
    ((SendQueue.construct ⟨9, 9, 9, 9, 9, true, true, true, none, 9, 9⟩ 50 2 1 0).map fun q =>
        Runs.trace SendQueue.call (q, ⟨[0, 1]⟩) [.push [⟨100, 6⟩], .markCompleted 7, .markCompleted 1]) =
      (McastSendQueue.construct ⟨0, 0, 0, 0, 0, false, false, false, none, 0, 0⟩ 50 2 1 0 1).map fun q =>
        Runs.trace (McastSendQueue.call (-1)) (q, ⟨[5, 4]⟩) [.push [⟨100, 6⟩], .markCompleted 7, .markCompleted 1] := by
  have hpool : (PacketBufferPool.mk [0, 1]).freeBuffers.length = (PacketBufferPool.mk [5, 4]).freeBuffers.length := rfl
  exact one_replica_is_unicast ⟨9, 9, 9, 9, 9, true, true, true, none, 9, 9⟩
    ⟨0, 0, 0, 0, 0, false, false, false, none, 0, 0⟩ 50 2 1 0 _ _ hpool (-1) _

end RapidTransfer
