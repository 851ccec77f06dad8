/-
The three queues of a session under one set of calls: `push`, `markCompleted` and `setWndSize` in any
order. What is in the packet pool at a call depends on all the other queues, so it comes with the call.

`push_rule` and `markCompleted_rule` are for properties of `head_` and the secondary queue alone: apart from the
buffers that are pushed, every call of every queue only takes fragments out, one for each step of `head_`.
-/
import RapidTransfer.Queue.Receive
import RapidTransfer.Lib.Runs

namespace RapidTransfer

inductive Queue
  | send (q : SendQueue)
  | mcast (q : McastSendQueue)
  | receive (q : ReceiveQueue)

inductive QueueKind
  | send
  | mcast (replicaNum : Nat)
  | receive
  deriving DecidableEq, Repr

/-- A call. `markCompleted` is told the packet, and the index of its sender if the queue has a tail for each. -/
inductive QueueOp
  | push (bufs : List Buffer) (pool : PacketBufferPool)
  | markCompleted (index : Int) (p : Packet) (pool : PacketBufferPool)
  | setWndSize (wndSize : Nat)

namespace Queue

def construct (kind : QueueKind) (raw : PacketHandle) (mtuSize queueCapacity wndSize session : Nat) : Option Queue :=
  match kind with
  | .send => (SendQueue.construct raw mtuSize queueCapacity wndSize session).map .send
  | .mcast n => (McastSendQueue.construct raw mtuSize queueCapacity wndSize session n).map .mcast
  | .receive => (ReceiveQueue.construct mtuSize queueCapacity wndSize session).map .receive

def head : Queue → Nat
  | .send q => q.ring.head
  | .mcast q => q.ring.head
  | .receive q => q.head

/-- `tail_`, of a multicast queue the least one. -/
def tail : Queue → Nat
  | .send q => q.tail
  | .mcast q => q.getMinTailIndex
  | .receive q => q.tail

def queueCapacity : Queue → Nat
  | .send q => q.ring.queueCapacity
  | .mcast q => q.ring.queueCapacity
  | .receive q => q.queueCapacity

def wndSize : Queue → Nat
  | .send q => q.ring.wndSize
  | .mcast q => q.ring.wndSize
  | .receive q => q.wndSize

def secondaryQueue : Queue → SecondaryQueue
  | .send q => q.ring.secondaryQueue
  | .mcast q => q.ring.secondaryQueue
  | .receive q => q.secondaryQueue

/-- `push`: the return value, `last_sn` and the queue. -/
def push (q : Queue) (bufs : List Buffer) (pool : PacketBufferPool) : Option (Int × Nat × Queue) :=
  match q with
  | .send q => (q.push bufs pool).map fun r => (r.1, r.2.1, .send r.2.2.1)
  | .mcast q => (q.push bufs pool).map fun r => (r.1, r.2.1, .mcast r.2.2.1)
  | .receive q => (q.push bufs).map fun r => (r.1, r.2.1, .receive r.2.2)

def markCompleted (q : Queue) (index : Int) (p : Packet) (pool : PacketBufferPool) : Option Queue :=
  match q with
  | .send q => some (.send (q.markCompleted p.sn pool).2.1)
  | .mcast q => some (.mcast (q.markCompleted index p.sn pool).2.1)
  | .receive q => (q.markCompleted p).map fun r => .receive r.1

def setWndSize (q : Queue) (wndSize : Nat) : Queue :=
  match q with
  | .send q => .send (q.setWndSize wndSize)
  | .mcast q => .mcast (q.setWndSize wndSize)
  | .receive q => .receive (q.setWndSize wndSize)

def apply (q : Queue) : QueueOp → Option Queue
  | .push bufs pool => (q.push bufs pool).map (·.2.2)
  | .markCompleted index p pool => q.markCompleted index p pool
  | .setWndSize w => some (q.setWndSize w)

/-- A fresh queue has posted nothing, and nothing waits. -/
theorem construct_start {kind : QueueKind} {raw : PacketHandle} {mtuSize queueCapacity wndSize session : Nat}
    {q : Queue} (h : construct kind raw mtuSize queueCapacity wndSize session = some q) :
    q.head = 0 ∧ q.secondaryQueue = SecondaryQueue.construct (fragmentSizeOf mtuSize) := by
  have hring : ∀ {r : SendRing}, SendRing.construct raw mtuSize queueCapacity wndSize session = some r →
      r.head = 0 ∧ r.secondaryQueue = SecondaryQueue.construct (fragmentSizeOf mtuSize) := by
    intro r hr
    unfold SendRing.construct at hr
    split at hr
    · cases hr; exact ⟨rfl, rfl⟩
    · cases hr
  cases kind with
  | send =>
    obtain ⟨q, hq, rfl⟩ := Option.map_eq_some_iff.1 h
    obtain ⟨r, hr, rfl⟩ := Option.map_eq_some_iff.1 hq
    exact hring hr
  | mcast n =>
    obtain ⟨q, hq, rfl⟩ := Option.map_eq_some_iff.1 h
    obtain ⟨r, hr, rfl⟩ := Option.map_eq_some_iff.1 hq
    exact hring hr
  | receive =>
    obtain ⟨q, hq, rfl⟩ := Option.map_eq_some_iff.1 h
    unfold ReceiveQueue.construct at hq
    split at hq
    · cases hq; exact ⟨rfl, rfl⟩
    · cases hq

/-- The number a push returns is the one the queue has reached. -/
theorem push_lastSn {q q' : Queue} {bufs : List Buffer} {pool : PacketBufferPool} {ret : Int} {sn : Nat}
    (h : q.push bufs pool = some (ret, sn, q')) : sn = shortSN q'.secondaryQueue.fragmentId := by
  cases q with
  | send q =>
    obtain ⟨⟨ret, sn, q', pool'⟩, hp, hx⟩ := Option.map_eq_some_iff.1 h
    cases hx
    exact SendQueue.push_lastSn hp
  | mcast q =>
    obtain ⟨⟨ret, sn, q', pool'⟩, hp, hx⟩ := Option.map_eq_some_iff.1 h
    cases hx
    exact McastSendQueue.push_lastSn hp
  | receive q =>
    obtain ⟨⟨ret, sn, q'⟩, hp, hx⟩ := Option.map_eq_some_iff.1 h
    cases hx
    exact ReceiveQueue.push_lastSn hp

/-! ## Properties of `head_` and the secondary queue -/

section Rule

variable {P : Nat → SecondaryQueue → Prop}
  (hpop : ∀ head s, P head s → s.hasRemainingFragment = true → P (head + 1) s.popFragment.2)
  (hnull : ∀ head s, P head s → s.hasRemainingFragment = true → s.popFragment.1.addr = 0 → P head s.popFragment.2)
include hpop hnull

theorem sendFill_rule (tail fuel : Nat) (r : SendRing) (pool : PacketBufferPool) (h : P r.head r.secondaryQueue) :
    P (SendRing.fill tail fuel r pool).2.1.head (SendRing.fill tail fuel r pool).2.1.secondaryQueue := by
  refine SendRing.fill_rule (P := fun r => P r.head r.secondaryQueue) ?_ ?_ fuel r pool h
  · intro r hd hd' _ _ hr hroom _ _
    exact hpop _ _ hr (Bool.and_eq_true_iff.1 hroom).1
  · intro r hd _ _ hr hroom hc hl
    refine hnull _ _ hr (Bool.and_eq_true_iff.1 hroom).1 ?_
    by_contra hne
    exact SendRing.load_ne_none (SendRing.claimBuffer_some hc) hne hl

theorem sendFillPrimary_rule (q : SendQueue) (pool : PacketBufferPool) (h : P q.ring.head q.ring.secondaryQueue) :
    P (q.fillPrimaryQueue pool).2.1.ring.head (q.fillPrimaryQueue pool).2.1.ring.secondaryQueue :=
  sendFill_rule hpop hnull q.tail (q.ring.wndSize + 1) q.ring pool h

theorem mcastFillPrimary_rule (q : McastSendQueue) (pool : PacketBufferPool) (h : P q.ring.head q.ring.secondaryQueue) :
    P (q.fillPrimaryQueue pool).2.1.ring.head (q.fillPrimaryQueue pool).2.1.ring.secondaryQueue :=
  sendFill_rule hpop hnull q.getMinTailIndex (q.ring.wndSize + 1) q.ring pool h

omit hnull in
theorem receiveFill_rule (q : ReceiveQueue) (h : P q.head q.secondaryQueue) :
    P q.fillPrimaryQueue.head q.fillPrimaryQueue.secondaryQueue :=
  ReceiveQueue.fill_rule (P := fun q => P q.head q.secondaryQueue)
    (fun _ hq hroom => hpop _ _ hq (Bool.and_eq_true_iff.1 hroom).1) (q.wndSize + 1) q h

omit hnull in
theorem settle_rule (q : ReceiveQueue) (h : P q.head q.secondaryQueue) : P q.settle.head q.settle.secondaryQueue := by
  refine receiveFill_rule hpop _ ?_
  exact ReceiveQueue.advance_rule (P := fun q => P q.head q.secondaryQueue) (fun _ hq _ _ => hq) _ q h

theorem push_rule {q q' : Queue} {bufs : List Buffer} {pool : PacketBufferPool} {ret : Int} {sn : Nat}
    (hp : q.push bufs pool = some (ret, sn, q'))
    (h : ∀ ids s, q.secondaryQueue.push bufs = some (ids, s) → P q.head s) : P q'.head q'.secondaryQueue := by
  cases q with
  | send q =>
    obtain ⟨⟨ret, sn, q', pool'⟩, hq, hx⟩ := Option.map_eq_some_iff.1 hp
    cases hx
    obtain ⟨ids, s, hs, -, hfill⟩ := SendQueue.push_some hq
    have := sendFillPrimary_rule hpop hnull { q with ring := { q.ring with secondaryQueue := s } } pool (h ids s hs)
    rwa [hfill] at this
  | mcast q =>
    obtain ⟨⟨ret, sn, q', pool'⟩, hq, hx⟩ := Option.map_eq_some_iff.1 hp
    cases hx
    obtain ⟨ids, s, hs, -, hfill⟩ := McastSendQueue.push_some hq
    have := mcastFillPrimary_rule hpop hnull { q with ring := { q.ring with secondaryQueue := s } } pool (h ids s hs)
    rwa [hfill] at this
  | receive q =>
    obtain ⟨⟨ret, sn, q'⟩, hq, hx⟩ := Option.map_eq_some_iff.1 hp
    cases hx
    obtain ⟨ids, s, hs, -, -, rfl⟩ := ReceiveQueue.push_some hq
    exact receiveFill_rule hpop { q with secondaryQueue := s } (h ids s hs)

theorem markCompleted_rule {q q' : Queue} {index : Int} {p : Packet} {pool : PacketBufferPool}
    (hm : q.markCompleted index p pool = some q') (h : P q.head q.secondaryQueue) : P q'.head q'.secondaryQueue := by
  cases q with
  | send q =>
    obtain rfl := Option.some.inj hm
    simp only [head, secondaryQueue, SendQueue.markCompleted]
    exact sendFillPrimary_rule hpop hnull { q with tail := ackTail q.tail q.ring.head p.sn } pool h
  | mcast q =>
    obtain rfl := Option.some.inj hm
    simp only [head, secondaryQueue, McastSendQueue.markCompleted]
    split
    · exact h
    · exact mcastFillPrimary_rule hpop hnull
        ⟨q.ring, q.tailList.set index.toNat (ackTail (q.tailList.getD index.toNat 0) q.ring.head p.sn)⟩ pool h
  | receive q =>
    obtain ⟨⟨q1, mv⟩, hq, rfl⟩ := Option.map_eq_some_iff.1 hm
    simp only [head, secondaryQueue] at h ⊢
    obtain ⟨-, rfl, -⟩ | ⟨-, -, rfl, -⟩ | ⟨-, -, -, rfl, -⟩ := ReceiveQueue.markCompleted_cases hq
    · exact h
    · exact settle_rule hpop q h
    · exact settle_rule hpop (q.complete p) h

end Rule

theorem setWndSize_frame (q : Queue) (w : Nat) :
    (q.setWndSize w).head = q.head ∧ (q.setWndSize w).secondaryQueue = q.secondaryQueue ∧
      (q.setWndSize w).tail = q.tail ∧ (q.setWndSize w).queueCapacity = q.queueCapacity ∧
      (q.setWndSize w).wndSize = min (w % 2 ^ 16) (q.queueCapacity % 2 ^ 16) := by
  cases q with
  | send q => exact ⟨rfl, rfl, rfl, rfl, rfl⟩
  | mcast q => exact ⟨rfl, rfl, rfl, rfl, rfl⟩
  | receive q => exact ⟨rfl, rfl, rfl, rfl, rfl⟩

end Queue

end RapidTransfer
