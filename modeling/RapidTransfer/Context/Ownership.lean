/-
Who holds the packets of the pool. A packet that is not free belongs to a receive handle of the context or of a group,
to the ACK handle of a session, or to a slot of a send queue. `Core.holdings` reads this off a state; every event of a
context moves packets between the free list and these places one at a time, so in every state of every run a packet is
free or in exactly one place (`Node.packets_partitioned`, `ContextMcast.packets_partitioned_by_groups`). No packet is
lost, and none is used twice: the NIC never writes into a packet that is being sent.
-/
import RapidTransfer.Context.Buffers
import RapidTransfer.Context.Queues
import RapidTransfer.Lib.Ownership

namespace RapidTransfer

open Ownership

/-- What can hold a packet. -/
inductive Place
  | receive (i : Nat)
  | group (addr : String) (i : Nat)
  | ack (sid : Nat)
  | slot (sid k : Nat)
  | mcastSlot (sid k : Nat)
  deriving DecidableEq

/-- The packet of a handle of a list. -/
def packetAt (hs : List PacketHandle) (i : Nat) : Option Nat := hs[i]?.bind (·.packetBuf)

namespace Core

/-- The packet a place holds, with the receive handles of the context and of its groups. -/
def heldAt (recv : List PacketHandle) (groups : String → Option (List PacketHandle)) (c : Core) : Place → Option Nat
  | .receive i => packetAt recv i
  | .group addr i => (groups addr).bind fun hs => packetAt hs i
  | .ack sid => (c.activeSessionMap.lookup sid).bind (·.ackHandle.packetBuf)
  | .slot sid k => (c.packetManager.sendQueue sid).bind fun q => (q.ring.handle k).packetBuf
  | .mcastSlot sid k => (c.packetManager.mcastSendQueue sid).bind fun q => (q.ring.handle k).packetBuf

def holdings (recv : List PacketHandle) (groups : String → Option (List PacketHandle)) (c : Core) :
    Holdings Place Nat :=
  ⟨c.packetManager.pool.freeBuffers, c.heldAt recv groups⟩

end Core

/-! ## The fill loop -/

namespace SendRing

/-- A free list and places as a ring and the pool have them. -/
structure Stores {ι : Type} (place : Nat → ι) (r : SendRing) (pool : PacketBufferPool) (l : Holdings ι Nat) : Prop where
  free : l.free = pool.freeBuffers
  held : ∀ k, l.held (place k) = (r.handle k).packetBuf

/-- The slot has a packet and keeps it, or it takes the first free one. -/
theorem claimBuffer_cases {h h' : PacketHandle} {pool pool' : PacketBufferPool}
    (hc : claimBuffer h pool = some (h', pool')) :
    (h.packetBuf.isSome = true ∧ h' = h ∧ pool' = pool) ∨
      h.packetBuf = none ∧ ∃ b, pool.freeBuffers = b :: pool'.freeBuffers ∧ h'.packetBuf = some b := by
  unfold claimBuffer at hc
  split at hc
  · rename_i hb
    cases hc
    exact .inl ⟨hb, rfl, rfl⟩
  · rename_i hb
    unfold PacketBufferPool.allocatePacket at hc
    split at hc
    · cases hc
    · rename_i b rest hfree
      cases hc
      exact .inr ⟨by simpa using hb, b, hfree, rfl⟩

variable {ι : Type} [DecidableEq ι] {A : Set ι} {place : Nat → ι} {r r' : SendRing} {pool pool' : PacketBufferPool}
  {l : Holdings ι Nat}

/-- One turn of the loop: a handle with the claimed packet goes into the slot of `head_`. -/
theorem Stores.claim (h : Stores place r pool l) (hinj : Function.Injective place)
    (hA : place (r.head % r.queueCapacity) ∈ A) {h0 h1 : PacketHandle}
    (hc : claimBuffer (r.getMutableEntry r.head) pool = some (h0, pool')) (hb : h1.packetBuf = h0.packetBuf)
    (hr : r'.handle = Ring.set r.handle (r.head % r.queueCapacity) h1) :
    ∃ l', Takes A l l' ∧ Stores place r' pool' l' ∧ ∀ p, p ∉ Set.range place → l'.held p = l.held p := by
  obtain ⟨-, rfl, rfl⟩ | ⟨hnone, b, hfree, hb0⟩ := claimBuffer_cases hc
  · refine ⟨l, .refl l, ⟨h.free, fun k => ?_⟩, fun _ _ => rfl⟩
    rw [h.held, hr]
    by_cases hk : k = r.head % r.queueCapacity
    · subst hk
      rw [Ring.set_same, hb]
      rfl
    · rw [Ring.set_of_ne _ _ hk]
  · obtain ⟨free, held⟩ := l
    have hl : free = b :: pool'.freeBuffers := h.free.trans hfree
    subst hl
    refine ⟨_, (Take.mk hA ((h.held _).trans hnone)).takes, ⟨rfl, fun k => ?_⟩, fun p hp => ?_⟩
    · rw [hr]
      by_cases hk : k = r.head % r.queueCapacity
      · subst hk
        rw [Ring.set_same, hb, hb0]
        exact Function.update_self _ _ _
      · rw [Ring.set_of_ne _ _ hk]
        exact (Function.update_of_ne (fun he => hk (hinj he)) _ _).trans (h.held k)
    · exact Function.update_of_ne (fun he => hp ⟨_, he.symm⟩) _ _

/-- The loop takes packets for slots of the ring, and for no other place. -/
theorem Stores.fill (hinj : Function.Injective place) (tail : Nat) : ∀ (fuel : Nat) {r : SendRing}
    {pool : PacketBufferPool} {l : Holdings ι Nat}, Stores place r pool l → (∀ i, place (i % r.queueCapacity) ∈ A) →
    ∃ l', Takes A l l' ∧ Stores place (fill tail fuel r pool).2.1 (fill tail fuel r pool).2.2 l' ∧
      ∀ p, p ∉ Set.range place → l'.held p = l.held p
  | 0, r, pool, l, h, _ => ⟨l, .refl l, h, fun _ _ => rfl⟩
  | fuel + 1, r, pool, l, h, hA => by
    unfold SendRing.fill
    split
    · split
      · exact ⟨l, .refl l, h, fun _ _ => rfl⟩
      · rename_i h0 pool' hc
        split
        · have hb : (r.stamp h0).packetBuf = h0.packetBuf := rfl
          exact h.claim hinj (hA _) hc hb rfl
        · rename_i h1 hload
          have hb : ({ h1 with inflight := true } : PacketHandle).packetBuf = h0.packetBuf := by
            rw [load_eq hload]
            rfl
          have happ : (r.append h1).handle =
              Ring.set r.handle (r.head % r.queueCapacity) { h1 with inflight := true } := rfl
          obtain ⟨l1, ht, hs, helse⟩ := h.claim hinj (hA _) hc hb happ
          obtain ⟨l2, ht', hs', helse'⟩ := hs.fill hinj tail fuel hA
          exact ⟨l2, ht.trans ht', hs', fun p hp => (helse' p hp).trans (helse p hp)⟩
    · exact ⟨l, .refl l, h, fun _ _ => rfl⟩

end SendRing

/-! ## What the operations do to the holdings -/

namespace Core

variable {recv : List PacketHandle} {groups : String → Option (List PacketHandle)} {A : Set Place} {c c' : Core}
  {sid : Nat} {ret : Int}

/-- A queue that was made has no packets. -/
theorem packetBuf_construct {raw : PacketHandle} {mtu cap wnd session : Nat} {r : SendRing}
    (h : SendRing.construct raw mtu cap wnd session = some r) (k : Nat) : (r.handle k).packetBuf = none := by
  unfold SendRing.construct at h
  split at h
  · cases h
    rfl
  · cases h

/-- The map of queues holds what it held when the only change is a queue without packets. -/
theorem bind_update_none {α : Type} {m : Nat → Option α} {f : α → Option Nat} {j : Nat} {q : α} (hj : m j = none)
    (hq : f q = none) (i : Nat) : (Function.update m j (some q) i).bind f = (m i).bind f := by
  by_cases hi : i = j
  · subst hi
    rw [Function.update_self, hj]
    exact hq
  · rw [Function.update_of_ne hi]

/-- The same when a queue is replaced by one with the same packets. -/
theorem bind_update_same {α : Type} {m : Nat → Option α} {f : α → Option Nat} {j : Nat} {q q' : α} (hj : m j = some q)
    (hq : f q' = f q) (i : Nat) : (Function.update m j (some q') i).bind f = (m i).bind f := by
  by_cases hi : i = j
  · subst hi
    rw [Function.update_self, hj]
    exact hq
  · rw [Function.update_of_ne hi]

theorem SessionsKept.heldAt (hk : SessionsKept c c') (sid : Nat) :
    (c'.activeSessionMap.lookup sid).bind (·.ackHandle.packetBuf) =
      (c.activeSessionMap.lookup sid).bind (·.ackHandle.packetBuf) := by
  cases hl : c.activeSessionMap.lookup sid with
  | none => rw [hk.new sid hl]
  | some e =>
    obtain ⟨e', he', hke⟩ := hk.old sid e hl
    rw [he']
    exact hke.packetBuf

/-- Nothing moves when the sessions are kept and the queues have the packets they had. -/
theorem holdings_eq (hk : SessionsKept c c') (hpool : c'.packetManager.pool = c.packetManager.pool)
    (hsend : ∀ sid k, c'.heldAt recv groups (.slot sid k) = c.heldAt recv groups (.slot sid k))
    (hmcast : ∀ sid k, c'.heldAt recv groups (.mcastSlot sid k) = c.heldAt recv groups (.mcastSlot sid k)) :
    c'.holdings recv groups = c.holdings recv groups := by
  unfold holdings
  rw [hpool]
  congr 1
  funext p
  cases p with
  | receive i => rfl
  | group addr i => rfl
  | ack sid => exact hk.heldAt sid
  | slot sid k => exact hsend sid k
  | mcastSlot sid k => exact hmcast sid k

theorem holdings_of_manager (hk : SessionsKept c c') (hm : c'.packetManager = c.packetManager) :
    c'.holdings recv groups = c.holdings recv groups := by
  refine holdings_eq hk (congrArg _ hm) (fun sid k => ?_) fun sid k => ?_
  · rw [heldAt, heldAt, hm]
  · rw [heldAt, heldAt, hm]

/-- The slots are not changed by the creation of queues. -/
theorem packets_setUp {m m' : PacketManager} (h : PacketManager.SetUp m sid m') (j k : Nat) :
    ((m'.sendQueue j).bind fun q => (q.ring.handle k).packetBuf) =
        (m.sendQueue j).bind (fun q => (q.ring.handle k).packetBuf) ∧
      ((m'.mcastSendQueue j).bind fun q => (q.ring.handle k).packetBuf) =
        (m.mcastSendQueue j).bind fun q => (q.ring.handle k).packetBuf := by
  constructor
  · obtain he | ⟨hn, q, hq, he⟩ := h.send
    · rw [he]
    · obtain ⟨r, hr, rfl⟩ := Option.map_eq_some_iff.1 hq
      rw [he]
      exact bind_update_none hn (packetBuf_construct hr k) j
  · obtain ⟨he, -⟩ | ⟨hn, q, hq, he, -⟩ := h.mcast
    · rw [he]
    · obtain ⟨r, hr, rfl⟩ := Option.map_eq_some_iff.1 hq
      rw [he]
      exact bind_update_none hn (packetBuf_construct hr k) j

theorem setup_pool {m m' : PacketManager} (h : m.setup sid = some m') : m'.pool = m.pool := by
  obtain ⟨m2, h2, h3⟩ := Option.bind_eq_some_iff.1 h
  obtain ⟨m1, h1, h2⟩ := Option.bind_eq_some_iff.1 h2
  have hp1 : m1.pool = m.pool := by
    unfold PacketManager.getSendQueue at h1
    split at h1
    · cases h1; rfl
    · obtain ⟨q, -, rfl⟩ := Option.map_eq_some_iff.1 h1
      rfl
  have hp2 : m2.pool = m1.pool := by
    unfold PacketManager.getReceiveQueue at h2
    split at h2
    · cases h2; rfl
    · obtain ⟨q, -, rfl⟩ := Option.map_eq_some_iff.1 h2
      rfl
  have hp3 : m'.pool = m2.pool := by
    unfold PacketManager.getMcastSendQueue at h3
    split at h3
    · cases h3; rfl
    · obtain ⟨q, -, rfl⟩ := Option.map_eq_some_iff.1 h3
      rfl
  exact hp3.trans (hp2.trans hp1)

/-- A session that is created takes the packet of its ACK handle. -/
theorem openSession_takes (hA : Place.ack sid ∈ A) (h : c.openSession sid = some (ret, c')) :
    Takes A (c.holdings recv groups) (c'.holdings recv groups) := by
  obtain ⟨e, -, -, rfl⟩ | ⟨hn, -, -, rfl⟩ | ⟨b, free, mgr, hn, hfree, hs, -, rfl⟩ := openSession_cases h
  · exact .refl _
  · refine .of_eq ?_
    unfold holdings
    congr 1
    funext p
    cases p with
    | ack k =>
      simp only [heldAt, lookup_setSession]
      split
      · rename_i hk
        subst hk
        rw [hn]
        rfl
      · rfl
    | _ => rfl
  · have hset := PacketManager.setup_some hs
    have hpool := setup_pool hs
    have hnone : c.heldAt recv groups (.ack sid) = none := by
      rw [heldAt, hn]
      rfl
    have hold : c.holdings recv groups = ⟨b :: free, c.heldAt recv groups⟩ := by
      unfold holdings
      rw [hfree]
    rw [hold]
    convert (Take.mk hA hnone).takes using 1
    unfold holdings
    congr 1
    · exact congrArg PacketBufferPool.freeBuffers hpool
    · funext p
      by_cases hp : p = .ack sid
      · subst hp
        rw [Function.update_self]
        simp only [heldAt, lookup_setSession, if_true]
        rfl
      · rw [Function.update_of_ne hp]
        cases p with
        | ack k =>
          have hk : k ≠ sid := fun he => hp (by rw [he])
          simp only [heldAt, lookup_setSession, if_neg hk]
        | slot j k => exact (packets_setUp hset j k).1
        | mcastSlot j k => exact (packets_setUp hset j k).2
        | receive i => rfl
        | group addr i => rfl

/-- What a loop over the places `place` does, when the new state has the ring it leaves. -/
theorem takes_of_fill {place : Nat → Place} (hinj : Function.Injective place) {r : SendRing} {tail fuel : Nat}
    (hA : ∀ i, place (i % r.queueCapacity) ∈ A)
    (hr : ∀ k, c.heldAt recv groups (place k) = (r.handle k).packetBuf)
    (hpool : c'.packetManager.pool = (SendRing.fill tail fuel r c.packetManager.pool).2.2)
    (hr' : ∀ k, c'.heldAt recv groups (place k) =
      ((SendRing.fill tail fuel r c.packetManager.pool).2.1.handle k).packetBuf)
    (helse : ∀ p, p ∉ Set.range place → c'.heldAt recv groups p = c.heldAt recv groups p) :
    Takes A (c.holdings recv groups) (c'.holdings recv groups) := by
  obtain ⟨l, ht, hs, hother⟩ := SendRing.Stores.fill hinj tail fuel
    (⟨rfl, hr⟩ : SendRing.Stores place r c.packetManager.pool (c.holdings recv groups)) hA
  have hl : c'.holdings recv groups = l := by
    obtain ⟨free, held⟩ := l
    unfold holdings
    congr 1
    · rw [hpool]
      exact hs.free.symm
    · funext p
      by_cases hp : p ∈ Set.range place
      · obtain ⟨k, rfl⟩ := hp
        exact (hr' k).trans (hs.held k).symm
      · exact (helse p hp).trans (hother p hp).symm
  rw [hl]
  exact ht

theorem slot_injective (ptr : Nat) : Function.Injective (Place.slot ptr) := fun _ _ h => (Place.slot.inj h).2

theorem mcastSlot_injective (ptr : Nat) : Function.Injective (Place.mcastSlot ptr) :=
  fun _ _ h => (Place.mcastSlot.inj h).2

theorem Restamped.packetBuf {r r' : SendRing} (h : r.Restamped r') (k : Nat) :
    (r'.handle k).packetBuf = (r.handle k).packetBuf := by
  obtain ⟨ts, he⟩ := h.handle k
  rw [he]

/-- The loop of a send queue, when the state has changed in this queue and the pool, and keeps its sessions. -/
theorem takes_of_sendQueue {ptr : Nat} {q q1 q2 q' : SendQueue} {pool : PacketBufferPool} (hk : SessionsKept c c')
    (hq : c.packetManager.sendQueue ptr = some q) (hfill : q1.fillPrimaryQueue c.packetManager.pool = (ret, q2, pool))
    (hr : q1.ring.handle = q.ring.handle) (hq' : q2.ring.Restamped q'.ring)
    (hm : c'.packetManager = { c.packetManager with pool := pool }.setSendQueue ptr q')
    (hA : ∀ i, Place.slot ptr (i % q'.ring.queueCapacity) ∈ A) :
    Takes A (c.holdings recv groups) (c'.holdings recv groups) := by
  have hring : (SendRing.fill q1.tail (q1.ring.wndSize + 1) q1.ring c.packetManager.pool).2.1 = q2.ring :=
    congrArg (·.2.1.ring) hfill
  have hpool : (SendRing.fill q1.tail (q1.ring.wndSize + 1) q1.ring c.packetManager.pool).2.2 = pool :=
    congrArg (·.2.2) hfill
  have hcap := (SendRing.fill_frame q1.tail (q1.ring.wndSize + 1) q1.ring c.packetManager.pool).2.1
  rw [hring] at hcap
  refine takes_of_fill (slot_injective ptr) (fun i => ?_) (fun k => ?_) (by rw [hm, hpool]; rfl) (fun k => ?_)
    fun p hp => ?_
  · rw [← hcap, ← hq'.queueCapacity]
    exact hA i
  · rw [heldAt, hq, hr]
    rfl
  · rw [heldAt, hm, PacketManager.setSendQueue, hring, ← Restamped.packetBuf hq']
    simp only [Function.update_self, Option.bind_some]
  · cases p with
    | ack sid => exact hk.heldAt sid
    | slot j k =>
      have hj : j ≠ ptr := fun he => hp ⟨k, by rw [he]⟩
      rw [heldAt, heldAt, hm, PacketManager.setSendQueue]
      simp only [Function.update_of_ne hj]
    | mcastSlot j k =>
      rw [heldAt, heldAt, hm]
      rfl
    | receive i => rfl
    | group addr i => rfl

/-- The loop of a multicast send queue in the same way. -/
theorem takes_of_mcastSendQueue {ptr : Nat} {q q1 q2 q' : McastSendQueue} {pool : PacketBufferPool}
    (hk : SessionsKept c c') (hq : c.packetManager.mcastSendQueue ptr = some q)
    (hfill : q1.fillPrimaryQueue c.packetManager.pool = (ret, q2, pool)) (hr : q1.ring.handle = q.ring.handle)
    (hq' : q2.ring.Restamped q'.ring)
    (hm : c'.packetManager = { c.packetManager with pool := pool }.setMcastSendQueue ptr q')
    (hA : ∀ i, Place.mcastSlot ptr (i % q'.ring.queueCapacity) ∈ A) :
    Takes A (c.holdings recv groups) (c'.holdings recv groups) := by
  have hring : (SendRing.fill q1.getMinTailIndex (q1.ring.wndSize + 1) q1.ring c.packetManager.pool).2.1 = q2.ring :=
    congrArg (·.2.1.ring) hfill
  have hpool : (SendRing.fill q1.getMinTailIndex (q1.ring.wndSize + 1) q1.ring c.packetManager.pool).2.2 = pool :=
    congrArg (·.2.2) hfill
  have hcap := (SendRing.fill_frame q1.getMinTailIndex (q1.ring.wndSize + 1) q1.ring c.packetManager.pool).2.1
  rw [hring] at hcap
  refine takes_of_fill (mcastSlot_injective ptr) (fun i => ?_) (fun k => ?_) (by rw [hm, hpool]; rfl) (fun k => ?_)
    fun p hp => ?_
  · rw [← hcap, ← hq'.queueCapacity]
    exact hA i
  · rw [heldAt, hq, hr]
    rfl
  · rw [heldAt, hm, PacketManager.setMcastSendQueue, hring, ← Restamped.packetBuf hq']
    simp only [Function.update_self, Option.bind_some]
  · cases p with
    | ack sid => exact hk.heldAt sid
    | slot j k =>
      rw [heldAt, heldAt, hm]
      rfl
    | mcastSlot j k =>
      have hj : j ≠ ptr := fun he => hp ⟨k, by rw [he]⟩
      rw [heldAt, heldAt, hm, PacketManager.setMcastSendQueue]
      simp only [Function.update_of_ne hj]
    | receive i => rfl
    | group addr i => rfl

end Core

/-! ## The unicast context -/

namespace Context

open RapidTransfer.Core

variable {recv : List PacketHandle} {groups : String → Option (List PacketHandle)} {A : Set Place} {c c' : Core}
  {e : Event}

/-- Every event of the unicast context takes packets, for the ACK handle of a session it opens and for slots of send
queues; none is given back. -/
theorem step_takes (hs : step c e = some c') (hack : ∀ sid, opens c e = some sid → Place.ack sid ∈ A)
    (hslot : ∀ ptr q, c'.packetManager.sendQueue ptr = some q → ∀ i, Place.slot ptr (i % q.ring.queueCapacity) ∈ A) :
    Takes A (c.holdings recv groups) (c'.holdings recv groups) := by
  cases effect hs with
  | refused h ho => exact openSession_takes (hack _ h) ho
  | sendPushed hf ho _ _ hq hpush hpu =>
    obtain ⟨ids, sq, -, -, hfill⟩ := SendQueue.push_some hpush
    refine (openSession_takes (hack _ hf) ho).trans ?_
    refine takes_of_sendQueue (.of_eq hpu.activeSessionMap) hq hfill rfl (.refl _) hpu.packetManager (hslot _ _ ?_)
    rw [hpu.packetManager]
    exact Function.update_self _ _ _
  | receivePushed hf ho _ _ _ _ hpu =>
    refine (openSession_takes (hack _ hf) ho).trans (.of_eq ?_)
    refine holdings_eq (SessionsKept.of_eq hpu.activeSessionMap) ?_ (fun sid k => ?_) fun sid k => ?_
    · rw [hpu.packetManager]
      rfl
    · rw [heldAt, heldAt, hpu.packetManager]
      rfl
    · rw [heldAt, heldAt, hpu.packetManager]
      rfl
  | acksSent h => exact .of_eq (holdings_of_manager (sendAcks_frame h).1 (sendAcks_packetManager h))
  | dataSent h =>
    refine .of_eq (sendDataPackets_rule (P := fun x => x.holdings recv groups = c.holdings recv groups)
      (fun x sid b x' resent hx hs => ?_) rfl h)
    obtain rfl | ⟨e, ptr, q, q', st, ds, -, -, hq, -, hr, -, -, rfl⟩ := sendSession_some hs
    · exact hx
    · refine Eq.trans ?_ hx
      refine holdings_eq (.of_eq rfl) rfl (fun sid k => ?_) fun _ _ => rfl
      exact bind_update_same hq (Restamped.packetBuf hr k) sid
  | dataArrived _ _ hx _ _ h =>
    obtain ⟨q', mv, mem, -, rfl⟩ := receiveData_some h
    exact .of_eq (holdings_eq (sessionsKept_setSession (by rfl) hx ⟨rfl, rfl, rfl, rfl, rfl, rfl, rfl⟩) rfl
      (fun _ _ => rfl) fun _ _ => rfl)
  | @ackArrived _ _ p _ _ _ q _ _ _ hx _ hq h =>
    obtain ⟨cwnd, incr, srtt, rttval, rfl⟩ := receiveAck_some h
    have hfill : SendQueue.fillPrimaryQueue { q with tail := ackTail q.tail q.ring.head p.sn } c.packetManager.pool =
      ((q.markCompleted p.sn c.packetManager.pool).1, (q.markCompleted p.sn c.packetManager.pool).2.1,
        (q.markCompleted p.sn c.packetManager.pool).2.2) := rfl
    refine takes_of_sendQueue (sessionsKept_setSession (by rfl) hx ⟨rfl, rfl, rfl, rfl, rfl, rfl, rfl⟩) hq hfill rfl
      ((SendRing.Restamped.refl _).followWnd cwnd) rfl (hslot _ _ ?_)
    exact Function.update_self _ _ _
  | completed =>
    exact .of_eq (holdings_of_manager (completeSend_frame c _).1 (completeSend_packetManager c _))
  | _ => exact .refl _

end Context

/-! ## The start -/

theorem allocateMany_freeBuffers : ∀ {k : Nat} {p p' : PacketBufferPool} {hs : List PacketHandle},
    PacketManager.allocateMany p k = some (hs, p') → p'.freeBuffers = p.freeBuffers.drop k
  | 0, p, p', hs, h => by cases h; rfl
  | k + 1, p, p', hs, h => by
    unfold PacketManager.allocateMany at h
    split at h
    · cases h
    · rename_i hd q hq
      obtain ⟨⟨hs', q'⟩, hrest, hx⟩ := Option.map_eq_some_iff.1 h
      cases hx
      unfold PacketBufferPool.allocatePacket at hq
      split at hq
      · cases hq
      · rename_i slot free hfree
        cases hq
        rw [allocateMany_freeBuffers hrest, hfree, List.drop_succ_cons]

/-- After `construct` the receive handles have the first packets, and the others are free. -/
theorem Core.balanced_construct {rto : Nat} {cfg : Core.Config} {c : Core} (h : Core.construct rto cfg = some c) :
    Balanced (Finset.range cfg.maxPackets) (c.holdings (Node.receiveHandles cfg) fun _ => none) := by
  obtain ⟨⟨hs, pool⟩, halloc, rfl⟩ := Option.map_eq_some_iff.1 h
  split at halloc
  · cases halloc
  · have hrecv : Node.receiveHandles cfg = hs := by
      unfold Node.receiveHandles
      rw [halloc]
      rfl
    obtain ⟨hmap, -⟩ := Node.allocateMany_packets halloc
    have hfree := allocateMany_freeBuffers halloc
    have hpackets : ∀ i, packetAt hs i = ((List.range cfg.maxPackets).reverse.take kNumReceiveHandles)[i]? := by
      intro i
      have hi := congrArg (·[i]?) hmap
      simp only [List.getElem?_map] at hi
      unfold packetAt
      cases hh : hs[i]? with
      | none =>
        rw [hh] at hi
        exact (Option.map_eq_none_iff.1 hi.symm).symm
      | some x =>
        rw [hh] at hi
        obtain ⟨b, hb, hx⟩ := Option.map_eq_some_iff.1 hi.symm
        exact hx.symm.trans hb.symm
    have hall : (List.range cfg.maxPackets).reverse.toFinset = Finset.range cfg.maxPackets := by
      ext b
      simp
    rw [hrecv, ← hall]
    unfold Core.holdings
    simp only [hfree]
    refine Balanced.of_split (List.nodup_reverse.2 List.nodup_range) kNumReceiveHandles Place.receive hpackets
      fun p hp => ?_
    cases p with
    | receive i => exact absurd ⟨i, rfl⟩ hp
    | _ => rfl

theorem Context.balanced_of_reachable {cfg : Core.Config} {es : List Context.Event} {c : Core}
    (h : Context.Reachable cfg es c) :
    Balanced (Finset.range cfg.maxPackets) (c.holdings (Node.receiveHandles cfg) fun _ => none) := by
  obtain ⟨c0, h0, hrun⟩ := h
  refine hrun.invariant (P := fun c => Balanced (Finset.range cfg.maxPackets)
    (c.holdings (Node.receiveHandles cfg) fun _ => none)) (Core.balanced_construct h0) fun c e c' hc _ hs => ?_
  exact hc.moves (Context.step_takes (A := Set.univ) hs (fun _ _ => trivial) fun _ _ _ _ => trivial).moves

/-! ## The packets the NIC writes into -/

namespace Node

variable {n n' : Node}

/-- The packets of handles. -/
def packetsOf (hs : List PacketHandle) : List Nat := hs.filterMap (·.packetBuf)

/-- One packet goes to the NIC, or stays where it is. -/
theorem packets_postReceiveRequest {r r' : Receives} {m : Int} {packet qp : Nat} {accepted : Bool} {ret : Int}
    (h : r.postReceiveRequest m packet qp accepted = some (ret, r')) :
    r'.packets.Sublist (r.packets ++ [packet]) := by
  obtain ⟨rfl, -⟩ | ⟨-, -, -, rfl⟩ := Receives.postReceiveRequest_cases h
  · exact List.sublist_append_left _ _
  · unfold Receives.packets
    rw [List.map_append]
    exact List.Sublist.refl _

theorem packets_submitHandles {accepted : Nat → Bool} : ∀ {hs : List PacketHandle} {i : Nat} {n n' : Node},
    submitHandles accepted i hs n = some n' → n'.receives.packets.Sublist (n.receives.packets ++ packetsOf hs)
  | [], i, n, n', h => by
    cases h
    rw [packetsOf, List.filterMap_nil, List.append_nil]
  | hd :: hs, i, n, n', h => by
    unfold submitHandles at h
    split at h
    · cases h
    · rename_i packet hp
      split at h
      · cases h
      · rename_i ret m hm
        split at h
        · cases h
        · obtain ⟨r, hpost, hx⟩ := Option.map_eq_some_iff.1 hm
          cases hx
          have hfirst := packets_postReceiveRequest hpost
          have hrest := packets_submitHandles h
          rw [packetsOf, List.filterMap_cons_some hp, ← List.singleton_append, ← List.append_assoc]
          exact hrest.trans (hfirst.append_right _)

/-- A completion takes a packet off its queue pair, and the same packet may be posted again. -/
theorem packets_completeReceive {ts : Nat} {w : Completion} {all : List Nat} (hwr : w.wr ∈ n.receives.outstanding)
    (h : n.completeReceive ts w = some n') (hall : n.receives.packets.Subperm all) :
    n'.receives.packets.Subperm all := by
  have hback := Receives.Tallied.packets_complete w.wr hwr
  obtain ⟨-, hr, -⟩ | ⟨-, -, index, map, ret, hpost⟩ := completeReceive_cases h
  · rw [hr]
    exact ((List.sublist_cons_self _ _).subperm.trans hback.symm.subperm).trans hall
  · have hsub := (packets_postReceiveRequest hpost).subperm
    have hperm : ((n.receives.complete w.wr).packets ++ [w.wr.2]).Perm n.receives.packets :=
      (List.perm_append_singleton _ _).trans hback.symm
    exact (hsub.trans hperm.subperm).trans hall

theorem packets_pollReceives {ts : Nat} {all : List Nat} : ∀ {ws : List Completion} {n n' : Node}, n.Tallied →
    (ws.map (·.wr)).Subperm n.receives.outstanding → n.pollReceives ts ws = some n' → n.receives.packets.Subperm all →
    n'.receives.packets.Subperm all
  | [], n, n', _, _, h, hall => by
    cases h
    exact hall
  | w :: ws, n, n', ht, hsub, h, hall => by
    obtain ⟨m, hm, hrest⟩ := Option.bind_eq_some_iff.1 h
    obtain ⟨hmt, hsub', -⟩ := completeReceive_first ht hsub hm
    exact packets_pollReceives hmt hsub' hrest (packets_completeReceive (hsub.subset (by simp)) hm hall)

/-- The NIC writes into packets of receive handles, and into no packet for two requests. -/
theorem packets_of_reachable {cfg : Core.Config} {accepted : Nat → Bool} {es : List Event}
    (h : Reachable cfg accepted es n) : n.receives.packets.Subperm (packetsOf (receiveHandles cfg)) := by
  obtain ⟨n0, h0, hrun⟩ := h
  refine (hrun.invariant
    (P := fun m => m.Tallied ∧ m.receives.packets.Subperm (packetsOf (receiveHandles cfg))) ?_ ?_).2
  · refine ⟨(construct_tallied h0).1, ?_⟩
    obtain ⟨core, -, hsub⟩ := Option.bind_eq_some_iff.1 h0
    exact (packets_submitHandles hsub).subperm
  · rintro m e m' ⟨ht, hall⟩ hok hs
    refine ⟨ht.step hok hs, ?_⟩
    obtain he | ⟨ts, ws, rfl⟩ := step_receives hs
    · rw [he]
      exact hall
    · exact packets_pollReceives ht hok.2.1 hs hall

theorem nodup_packetsOf {hs : List PacketHandle}
    (hinj : ∀ i j b, packetAt hs i = some b → packetAt hs j = some b → i = j) : (packetsOf hs).Nodup := by
  rw [List.Nodup, packetsOf, List.pairwise_filterMap, List.pairwise_iff_getElem]
  rintro i j hi hj hij b hb b' hb' rfl
  have hat : ∀ {k : Nat} (hk : k < hs.length), hs[k].packetBuf = some b → packetAt hs k = some b := by
    intro k hk hpk
    rw [packetAt, List.getElem?_eq_getElem hk]
    exact hpk
  exact absurd (hinj i j b (hat hi hb) (hat hj hb')) (Nat.ne_of_lt hij)

/-- In every state of a node each packet is free, or one place has it; and the packets of the receive requests the NIC
holds are different ones, all of them of receive handles. -/
theorem packets_partitioned {cfg : Core.Config} {accepted : Nat → Bool} {es : List Event}
    (h : Reachable cfg accepted es n) :
    (∀ b < cfg.maxPackets,
      (b ∈ n.core.packetManager.pool.freeBuffers ∧
        ∀ p, n.core.heldAt (receiveHandles cfg) (fun _ => none) p ≠ some b) ∨
      b ∉ n.core.packetManager.pool.freeBuffers ∧
        ∃! p, n.core.heldAt (receiveHandles cfg) (fun _ => none) p = some b) ∧
    n.receives.packets.Nodup ∧ ∀ b ∈ n.receives.packets, ∃ i, packetAt (receiveHandles cfg) i = some b := by
  obtain ⟨fs, hcore⟩ := core_reachable h
  have hbal := Context.balanced_of_reachable hcore
  have hsub := packets_of_reachable h
  refine ⟨fun b hb => hbal.free_xor_held (Finset.mem_range.2 hb), ?_, fun b hb => ?_⟩
  · obtain ⟨l, hperm, hsl⟩ := hsub
    refine hperm.nodup_iff.1 (hsl.nodup (nodup_packetsOf fun i j b hi hj => ?_))
    have := hbal.once (p := .receive i) (q := .receive j) hi hj
    cases this
    rfl
  · obtain ⟨hd, hmem, hpk⟩ := List.mem_filterMap.1 (hsub.subset hb)
    obtain ⟨i, hi⟩ := List.mem_iff_getElem?.1 hmem
    refine ⟨i, ?_⟩
    rw [packetAt, hi]
    exact hpk

/-- A node that has sent one fragment to a peer, and has received a packet from a stranger: packet 127 is with the ACK
handle of the session, packet 126 in the first slot of its send queue. -/
theorem packets_of_first_send : ∃ n, Reachable (defaultConfig 256) (fun _ => true)
      [.call (.setupConnection "b" 7 [1] [1] true), .call (.send "b" [⟨100, 1⟩]), .pollReceives 0 [stranger 48]] n ∧
    n.core.heldAt (receiveHandles (defaultConfig 256)) (fun _ => none) (.ack 0) = some 127 ∧
    n.core.heldAt (receiveHandles (defaultConfig 256)) (fun _ => none) (.slot 0 0) = some 126 ∧
    n.receives.packets.Nodup ∧ 126 ∉ n.receives.packets := by
  obtain ⟨n0, n, h0, hrun, ht⟩ := Runs.exists_run_of_start step ok (construct (defaultConfig 256) fun _ => true)
    [.call (.setupConnection "b" 7 [1] [1] true), .call (.send "b" [⟨100, 1⟩]), .pollReceives 0 [stranger 48]]
    (fun n => decide (n.core.heldAt (receiveHandles (defaultConfig 256)) (fun _ => none) (.ack 0) = some 127 ∧
      n.core.heldAt (receiveHandles (defaultConfig 256)) (fun _ => none) (.slot 0 0) = some 126)) (by decide +kernel)
  obtain ⟨hack, hslot⟩ := of_decide_eq_true ht
  have hreach : Reachable (defaultConfig 256) (fun _ => true) _ n := ⟨n0, h0, hrun⟩
  obtain ⟨hpart, hnodup, hfrom⟩ := packets_partitioned hreach
  refine ⟨n, hreach, hack, hslot, hnodup, fun hmem => ?_⟩
  obtain ⟨i, hi⟩ := hfrom 126 hmem
  obtain ⟨-, hno⟩ | ⟨-, hone⟩ := hpart 126 (by decide)
  · exact hno _ hslot
  · have heq : Place.slot 0 0 = .receive i := hone.unique hslot hi
    cases heq

end Node

/-! ## The multicast context -/

namespace ContextMcast

open RapidTransfer.Core

section Handles

variable {ι : Type} [DecidableEq ι]

/-- The handles of a group take their packets in turn, until the pool is empty. -/
theorem allocateHandles_takes : ∀ (hs : List PacketHandle) (pool : PacketBufferPool) {l : Holdings ι Nat}
    {place : Nat → ι}, Function.Injective place → l.free = pool.freeBuffers → (∀ h ∈ hs, h.packetBuf = none) →
    (∀ i, l.held (place i) = none) →
    ∃ l', Takes Set.univ l l' ∧ l'.free = (allocateHandles hs pool).2.2.freeBuffers ∧
      (∀ i, l'.held (place i) = packetAt (allocateHandles hs pool).2.1 i) ∧ ∀ p, p ∉ Set.range place →
      l'.held p = l.held p
  | [], pool, l, place, _, hfree, _, hnone => ⟨l, .refl l, hfree, hnone, fun _ _ => rfl⟩
  | h :: hs, pool, ⟨free, held⟩, place, hinj, hfree, hempty, hnone => by
    unfold allocateHandles PacketBufferPool.allocatePacket
    cases hp : pool.freeBuffers with
    | nil =>
      refine ⟨⟨free, held⟩, .refl _, hfree, fun i => ?_, fun _ _ => rfl⟩
      rw [hnone i, packetAt]
      cases hi : (h :: hs)[i]? with
      | none => rfl
      | some x => exact (hempty x (List.mem_of_getElem? hi)).symm
    | cons b rest =>
      obtain rfl : free = b :: rest := hfree.trans hp
      have hstep : Take Set.univ ⟨b :: rest, held⟩ ⟨rest, Function.update held (place 0) (some b)⟩ :=
        .mk trivial (hnone 0)
      have hne : ∀ i, place (i + 1) ≠ place 0 := fun i he => Nat.succ_ne_zero i (hinj he)
      obtain ⟨l', ht, hf, hheld, helse⟩ := allocateHandles_takes hs ⟨rest⟩
        (l := ⟨rest, Function.update held (place 0) (some b)⟩) (hinj.comp (add_left_injective 1)) rfl
        (fun x hx => hempty x (List.mem_cons_of_mem h hx))
        fun i => (Function.update_of_ne (hne i) _ _).trans (hnone (i + 1))
      refine ⟨l', hstep.takes.trans ht, hf, fun i => ?_, fun p hp => ?_⟩
      · cases i with
        | zero =>
          rw [helse (place 0) (by rintro ⟨i, hi⟩; exact hne i hi)]
          exact Function.update_self _ _ _
        | succ i => exact hheld i
      · rw [helse p (by rintro ⟨i, hi⟩; exact hp ⟨i + 1, hi⟩)]
        exact Function.update_of_ne (fun he => hp ⟨0, he.symm⟩) _ _

/-- The handles of a group give their packets back. -/
theorem freeHandles_moves : ∀ (hs : List PacketHandle) (pool : PacketBufferPool) {l : Holdings ι Nat}
    {place : Nat → ι}, Function.Injective place → l.free = pool.freeBuffers → (∀ i, l.held (place i) = packetAt hs i) →
    ∃ l', Moves Set.univ l l' ∧ l'.free = (freeHandles hs pool).freeBuffers ∧ (∀ i, l'.held (place i) = none) ∧
      ∀ p, p ∉ Set.range place → l'.held p = l.held p
  | [], pool, l, place, _, hfree, hheld => ⟨l, .refl l, hfree, hheld, fun _ _ => rfl⟩
  | h :: hs, pool, ⟨free, held⟩, place, hinj, hfree, hheld => by
    have hne : ∀ i, place (i + 1) ≠ place 0 := fun i he => Nat.succ_ne_zero i (hinj he)
    -- the first handle gives its packet back, if it has one
    obtain ⟨l1, hm1, hf1, hnone1, helse1⟩ : ∃ l1, Moves Set.univ ⟨free, held⟩ l1 ∧
        l1.free = ((pool.freePacket h).getD pool).freeBuffers ∧ l1.held (place 0) = none ∧
        ∀ p, p ≠ place 0 → l1.held p = held p := by
      have hfirst : held (place 0) = h.packetBuf := hheld 0
      unfold PacketBufferPool.freePacket
      cases hb : h.packetBuf with
      | none => exact ⟨⟨free, held⟩, .refl _, hfree, hfirst.trans hb, fun _ _ => rfl⟩
      | some b =>
        have hgive : Give ⟨free, held⟩ ⟨b :: free, Function.update held (place 0) none⟩ := .mk (hfirst.trans hb)
        exact ⟨_, hgive.moves, congrArg (b :: ·) hfree, Function.update_self _ _ _,
          fun p hp => Function.update_of_ne hp _ _⟩
    obtain ⟨l', hm, hf, hnone, helse⟩ := freeHandles_moves hs _ (hinj.comp (add_left_injective 1)) hf1
      fun i => (helse1 _ (hne i)).trans (hheld (i + 1))
    refine ⟨l', hm1.trans hm, hf, fun i => ?_, fun p hp => ?_⟩
    · cases i with
      | zero =>
        rw [helse (place 0) (by rintro ⟨i, hi⟩; exact hne i hi)]
        exact hnone1
      | succ i => exact hnone i
    · rw [helse p (by rintro ⟨i, hi⟩; exact hp ⟨i + 1, hi⟩)]
      exact helse1 p fun he => hp ⟨0, he.symm⟩

end Handles

variable {recv : List PacketHandle} {c c' : ContextMcast} {addr : String}

/-- A group that has receive handles is joined. -/
def Joined (c : ContextMcast) : Prop :=
  ∀ addr, (c.multicastRecvInfoMap addr).isSome → addr ∈ c.controller.multicastContextMap

abbrev holdings (recv : List PacketHandle) (c : ContextMcast) : Holdings Place Nat :=
  c.toCore.holdings recv c.multicastRecvInfoMap

theorem group_injective (addr : String) : Function.Injective (Place.group addr) := fun _ _ h => (Place.group.inj h).2

/-- What the group's handles hold is all that has changed, besides the free list. -/
theorem holdings_eq_of_group {l : Holdings Place Nat} (addr : String)
    (hfree : c'.packetManager.pool.freeBuffers = l.free)
    (hgroup : ∀ i, c'.toCore.heldAt recv c'.multicastRecvInfoMap (.group addr i) = l.held (.group addr i))
    (helse : ∀ p, p ∉ Set.range (Place.group addr) → c'.toCore.heldAt recv c'.multicastRecvInfoMap p = l.held p) :
    c'.holdings recv = l := by
  obtain ⟨free, held⟩ := l
  unfold holdings Core.holdings
  congr 1
  funext p
  by_cases hp : p ∈ Set.range (Place.group addr)
  · obtain ⟨i, rfl⟩ := hp
    exact hgroup i
  · exact helse p hp

theorem heldAt_of_group {groups : String → Option (List PacketHandle)} {v : Option (List PacketHandle)}
    (core core' : Core)
    (hm : core'.activeSessionMap = core.activeSessionMap)
    (hs : core'.packetManager.sendQueue = core.packetManager.sendQueue)
    (hq : core'.packetManager.mcastSendQueue = core.packetManager.mcastSendQueue) {p : Place}
    (hp : p ∉ Set.range (Place.group addr)) :
    core'.heldAt recv (Function.update groups addr v) p = core.heldAt recv groups p := by
  cases p with
  | receive i => rfl
  | group a i =>
    have ha : a ≠ addr := fun he => hp ⟨i, by rw [he]⟩
    simp only [heldAt, Function.update_of_ne ha]
  | ack sid => simp only [heldAt, hm]
  | slot sid k => simp only [heldAt, hs]
  | mcastSlot sid k => simp only [heldAt, hq]

/-- New handles have no packets. -/
theorem packetBuf_resizeHandles (raw : PacketHandle) : ∀ h ∈ resizeHandles raw [], h.packetBuf = none := by
  intro h hh
  rw [resizeHandles, List.take_nil, List.nil_append] at hh
  rw [List.eq_of_mem_replicate hh]
  rfl

theorem packetAt_of_empty {hs : List PacketHandle} (h : ∀ x ∈ hs, x.packetBuf = none) (i : Nat) :
    packetAt hs i = none := by
  unfold packetAt
  cases hi : hs[i]? with
  | none => rfl
  | some x => exact h x (List.mem_of_getElem? hi)

/-- Joining a group takes packets for its handles; a group that is there already, or that cannot be set up, takes
none. -/
theorem joinMulticast_moves (hj : c.Joined) (constructed registered : Bool) :
    Moves Set.univ (c.holdings recv) ((c.joinMulticast addr constructed registered).2.holdings recv) ∧
      (c.joinMulticast addr constructed registered).2.Joined := by
  unfold joinMulticast
  obtain ⟨-, he⟩ | ⟨-, -, he⟩ | ⟨hnew, -, he⟩ := c.controller.joinMulticast_cases addr constructed
  · simp only [he]
    exact ⟨.refl _, hj⟩
  · simp only [he]
    exact ⟨.refl _, hj⟩
  · simp only [he]
    have hnone : c.multicastRecvInfoMap addr = none := by
      by_contra hne
      exact hnew (hj addr (Option.isSome_iff_ne_none.2 hne))
    have hjoined : ∀ (d : ContextMcast) hs pool, d.multicastRecvInfoMap = c.multicastRecvInfoMap →
        d.controller.multicastContextMap = c.controller.multicastContextMap.insert addr ⟨c.controller.nextNodeId, []⟩ →
        (d.joined addr hs pool).Joined := by
      intro d hs pool hinfo hctl a ha
      show a ∈ d.controller.multicastContextMap
      rw [hctl, AList.mem_insert]
      by_cases hne : a = addr
      · exact .inl hne
      · refine .inr (hj a ?_)
        simp only [joined, Function.update_of_ne hne, hinfo] at ha
        exact ha
    have hempty := packetBuf_resizeHandles c.packetManager.raw
    have hgroup : ∀ i, (c.holdings recv).held (.group addr i) = none := by
      intro i
      simp only [holdings, Core.holdings, heldAt, hnone, Option.bind_none]
    rw [if_neg (by decide), hnone]
    split
    · refine ⟨.of_eq (holdings_eq_of_group addr rfl (fun i => ?_) fun p hp => ?_), hjoined _ _ _ rfl rfl⟩
      · rw [hgroup i]
        simp only [joined, heldAt, Function.update_self, Option.bind_some]
        exact packetAt_of_empty hempty i
      · exact heldAt_of_group c.toCore _ rfl rfl rfl hp
    · obtain ⟨l, ht, hfree, hheld, helse⟩ := allocateHandles_takes _ c.packetManager.pool (l := c.holdings recv)
        (group_injective addr) rfl hempty hgroup
      refine ⟨ht.moves.trans (.of_eq (holdings_eq_of_group addr hfree.symm (fun i => ?_) fun p hp => ?_)),
        hjoined _ _ _ rfl rfl⟩
      · rw [hheld i]
        simp only [joined, heldAt, Function.update_self, Option.bind_some]
        rfl
      · rw [helse p hp]
        exact heldAt_of_group c.toCore _ rfl rfl rfl hp

/-- Leaving a group gives back what its handles hold. -/
theorem leaveMulticast_moves (hj : c.Joined) {ret : Int} (h : c.leaveMulticast addr = some (ret, c')) :
    Moves Set.univ (c.holdings recv) (c'.holdings recv) ∧ c'.Joined := by
  unfold leaveMulticast at h
  split at h
  · cases h
  · rename_i g hg
    cases h
    constructor
    · obtain ⟨l, hm, hfree, hnone, helse⟩ := freeHandles_moves ((c.multicastRecvInfoMap addr).getD [])
        c.packetManager.pool (l := c.holdings recv) (group_injective addr) rfl fun i => by
          simp only [holdings, Core.holdings, heldAt]
          cases c.multicastRecvInfoMap addr with
          | none => rfl
          | some hs => rfl
      refine hm.trans (.of_eq (holdings_eq_of_group addr hfree.symm (fun i => ?_) fun p hp => ?_))
      · rw [hnone i]
        simp only [heldAt, Function.update_self, Option.bind_none]
      · rw [helse p hp]
        exact heldAt_of_group c.toCore _ rfl rfl rfl hp
    · intro a ha
      have hne : a ≠ addr := by
        rintro rfl
        simp only [Function.update_self, Option.isSome_none] at ha
        cases ha
      simp only [Function.update_of_ne hne] at ha
      have hold := hj a ha
      show a ∈ (c.controller.leaveMulticast addr).2.multicastContextMap
      unfold Controller.leaveMulticast
      split
      · exact AList.mem_erase.2 ⟨hne, hold⟩
      · exact hold

/-- Only joining and leaving change the handles of groups. -/
theorem step_recvInfo {e : Event} (hs : step c e = some c') (hj : ∀ addr b b', e ≠ .joinMulticast addr b b')
    (hl : ∀ addr, e ≠ .leaveMulticast addr) :
    c'.multicastRecvInfoMap = c.multicastRecvInfoMap ∧
      ∀ addr ∈ c.controller.multicastContextMap, addr ∈ c'.controller.multicastContextMap := by
  cases effect hs with
  | joined => exact absurd rfl (hj _ _ _)
  | left => exact absurd rfl (hl _)
  | replicasSet hg => exact ⟨rfl, fun a ha => (AList.mem_insert _).2 (.inr ha)⟩
  | refused _ ho => exact ⟨rfl, by rw [(openSession_frame ho).1]; exact fun _ ha => ha⟩
  | sendPushed _ _ ho _ _ _ _ h =>
    exact ⟨rfl, by rw [h.controller, (openSession_frame ho).1]; exact fun _ ha => ha⟩
  | receivePushed _ _ ho _ _ _ _ h =>
    exact ⟨rfl, by rw [h.controller, (openSession_frame ho).1]; exact fun _ ha => ha⟩
  | acksSent h =>
    obtain ⟨-, st, m, rfl⟩ := sendAcks_frame h
    exact ⟨rfl, fun _ ha => ha⟩
  | dataSent h =>
    obtain ⟨queues, depth, rfl⟩ := sendDataPackets_frame h
    exact ⟨rfl, fun _ ha => ha⟩
  | dataArrived _ _ _ _ _ h =>
    obtain ⟨q', mv, mem, -, rfl⟩ := receiveData_some h
    exact ⟨rfl, fun _ ha => ha⟩
  | ackArrived _ _ _ _ _ _ h =>
    obtain ⟨cwnd, incr, srtt, rttval, rfl⟩ := receiveAck_some h
    exact ⟨rfl, fun _ ha => ha⟩
  | @completed r =>
    obtain ⟨-, st, m, he⟩ := completeSend_frame c.toCore r
    rw [he]
    exact ⟨rfl, fun _ ha => ha⟩
  | _ => exact ⟨rfl, fun _ ha => ha⟩

/-- An ACK of a replica fills the queue against its new tails; one of no replica does nothing. -/
theorem markCompleted_cases (q : McastSendQueue) (index : Int) (sn : Nat) (pool : PacketBufferPool) :
    (∃ tails, q.markCompleted index sn pool = McastSendQueue.fillPrimaryQueue { q with tailList := tails } pool) ∨
      q.markCompleted index sn pool = (-1, q, pool) := by
  unfold McastSendQueue.markCompleted
  split
  · exact .inr rfl
  · exact .inl ⟨_, rfl⟩

/-- The other events take packets, as those of the unicast context do. -/
theorem step_takes {e : Event} (hs : step c e = some c') (hj : ∀ addr b b', e ≠ .joinMulticast addr b b')
    (hl : ∀ addr, e ≠ .leaveMulticast addr) : Takes Set.univ (c.holdings recv) (c'.holdings recv) := by
  cases effect hs with
  | joined => exact absurd rfl (hj _ _ _)
  | left => exact absurd rfl (hl _)
  | @replicasSet _ peers g _ =>
    refine .of_eq ?_
    unfold holdings
    refine holdings_eq (.of_eq rfl) ?_ (fun sid k => ?_) fun sid k => ?_
    · simp only [PacketManager.setMulticastReplicaNum]
      split
      · rfl
      · rfl
    · simp only [heldAt, PacketManager.setMulticastReplicaNum]
      split
      · rfl
      · rfl
    · simp only [heldAt, (c.packetManager.setMulticastReplicaNum_cases g.groupId peers.length).1]
  | refused _ ho => exact openSession_takes (Set.mem_univ _) ho
  | sendPushed _ _ ho _ _ hq hpush hpu =>
    obtain ⟨ids, sq, -, -, hfill⟩ := McastSendQueue.push_some hpush
    refine (openSession_takes (Set.mem_univ _) ho).trans ?_
    exact takes_of_mcastSendQueue (.of_eq hpu.activeSessionMap) hq hfill rfl (.refl _) hpu.packetManager
      fun _ => Set.mem_univ _
  | receivePushed _ _ ho _ _ _ _ hpu =>
    refine (openSession_takes (Set.mem_univ _) ho).trans (.of_eq ?_)
    refine holdings_eq (.of_eq hpu.activeSessionMap) ?_ (fun sid k => ?_) fun sid k => ?_
    · rw [hpu.packetManager]
      rfl
    · rw [heldAt, heldAt, hpu.packetManager]
      rfl
    · rw [heldAt, heldAt, hpu.packetManager]
      rfl
  | acksSent h => exact .of_eq (holdings_of_manager (sendAcks_frame h).1 (sendAcks_packetManager h))
  | dataSent h =>
    refine .of_eq (sendDataPackets_rule (P := fun x => x.holdings recv = c.holdings recv)
      (fun x sid x' resent hx hs => ?_) rfl h)
    obtain ⟨rfl, -⟩ | ⟨e, ptr, q, q', depth, -, -, hq, -, hr, rfl⟩ := sendSession_some hs
    · exact hx
    · refine Eq.trans ?_ hx
      refine holdings_eq (.of_eq rfl) rfl (fun _ _ => rfl) fun sid k => ?_
      exact bind_update_same hq (Restamped.packetBuf hr k) sid
  | dataArrived _ _ hx _ _ h =>
    obtain ⟨q', mv, mem, -, rfl⟩ := receiveData_some h
    exact .of_eq (holdings_eq (sessionsKept_setSession (by rfl) hx ⟨rfl, rfl, rfl, rfl, rfl, rfl, rfl⟩) rfl
      (fun _ _ => rfl) fun _ _ => rfl)
  | @ackArrived _ _ _ p sid ptr x q _ _ _ _ hx _ hq h =>
    obtain ⟨cwnd, incr, srtt, rttval, rfl⟩ := receiveAck_some h
    obtain ⟨tails, hm⟩ | hm :=
      markCompleted_cases q (c.controller.redirectMulticast sid).2 p.sn c.packetManager.pool
    · refine takes_of_mcastSendQueue
        (sessionsKept_setSession (by rfl) hx ⟨rfl, rfl, rfl, rfl, rfl, rfl, rfl⟩) hq hm.symm rfl
        ((SendRing.Restamped.refl _).followWnd cwnd) rfl fun _ => Set.mem_univ _
    · rw [hm]
      refine .of_eq (holdings_eq (sessionsKept_setSession (by rfl) hx ⟨rfl, rfl, rfl, rfl, rfl, rfl, rfl⟩) rfl
        (fun _ _ => rfl) fun j k => ?_)
      exact bind_update_same hq (Restamped.packetBuf ((SendRing.Restamped.refl _).followWnd cwnd) k) j
  | completed =>
    exact .of_eq (holdings_of_manager (completeSend_frame c.toCore _).1 (completeSend_packetManager c.toCore _))
  | _ => exact .refl _

/-- Every event moves packets between the free list and the places. -/
theorem step_moves {e : Event} (hj : c.Joined) (hs : step c e = some c') :
    Moves Set.univ (c.holdings recv) (c'.holdings recv) ∧ c'.Joined := by
  have hother : (∀ addr b b', e ≠ .joinMulticast addr b b') → (∀ addr, e ≠ .leaveMulticast addr) →
      Moves Set.univ (c.holdings recv) (c'.holdings recv) ∧ c'.Joined := by
    intro h1 h2
    obtain ⟨hinfo, hctl⟩ := step_recvInfo hs h1 h2
    refine ⟨(step_takes hs h1 h2).moves, fun a ha => ?_⟩
    rw [hinfo] at ha
    exact hctl a (hj a ha)
  cases e with
  | joinMulticast addr constructed registered =>
    cases hs
    exact joinMulticast_moves hj constructed registered
  | leaveMulticast addr =>
    obtain ⟨⟨ret, c1⟩, hx, rfl⟩ := Option.map_eq_some_iff.1 hs
    exact leaveMulticast_moves hj hx
  | _ => exact hother (fun _ _ _ he => by cases he) fun _ he => by cases he

/-- In every state of a multicast context each packet is free, or one place has it: a group that was joined in part has
the packets it got, and a group that is not joined, or was left, has none. -/
theorem packets_partitioned_by_groups {cfg : Config} {es : List Event} (h : Reachable cfg es c) :
    (∀ b < cfg.maxPackets,
      (b ∈ c.packetManager.pool.freeBuffers ∧
        ∀ p, c.toCore.heldAt (Node.receiveHandles cfg) c.multicastRecvInfoMap p ≠ some b) ∨
      b ∉ c.packetManager.pool.freeBuffers ∧
        ∃! p, c.toCore.heldAt (Node.receiveHandles cfg) c.multicastRecvInfoMap p = some b) ∧
    ∀ addr ∉ c.controller.multicastContextMap, ∀ i,
      c.toCore.heldAt (Node.receiveHandles cfg) c.multicastRecvInfoMap (.group addr i) = none := by
  obtain ⟨c0, h0, hrun⟩ := h
  obtain ⟨core, hcore, rfl⟩ := Option.map_eq_some_iff.1 h0
  obtain ⟨hbal, hj⟩ := hrun.invariant
    (P := fun c => Balanced (Finset.range cfg.maxPackets) (c.holdings (Node.receiveHandles cfg)) ∧ c.Joined)
    ⟨balanced_construct hcore, fun _ ha => by cases ha⟩
    (by
      rintro x e x' ⟨hbal, hj⟩ - hs
      obtain ⟨hm, hj'⟩ := step_moves hj hs
      exact ⟨hbal.moves hm, hj'⟩)
  refine ⟨fun b hb => hbal.free_xor_held (Finset.mem_range.2 hb), fun addr hnot i => ?_⟩
  cases hinfo : c.multicastRecvInfoMap addr with
  | none => simp only [heldAt, hinfo, Option.bind_none]
  | some hs => exact absurd (hj addr (by rw [hinfo]; rfl)) hnot

/-- There are 200 packets: the group gets 72 for its 128 handles, and the join fails; when it is left, they are free
again. -/
theorem packets_of_partial_join : ∃ c c', Reachable (smallConfig 200) [.joinMulticast "g" true true] c ∧
    Reachable (smallConfig 200) [.joinMulticast "g" true true, .leaveMulticast "g"] c' ∧
    c.packetManager.pool.freeBuffers = [] ∧
    c.toCore.heldAt (Node.receiveHandles (smallConfig 200)) c.multicastRecvInfoMap (.group "g" 71) = some 0 ∧
    c'.packetManager.pool.freeBuffers.length = 72 ∧
    ∀ i, c'.toCore.heldAt (Node.receiveHandles (smallConfig 200)) c'.multicastRecvInfoMap (.group "g" i) = none := by
  obtain ⟨c0, c, h0, hrun, ht⟩ :=
    Runs.exists_run_of_start step ok (start (smallConfig 200)) [.joinMulticast "g" true true]
    (fun c => decide (c.packetManager.pool.freeBuffers = [] ∧
      c.toCore.heldAt (Node.receiveHandles (smallConfig 200)) c.multicastRecvInfoMap (.group "g" 71) = some 0))
    (by decide +kernel)
  obtain ⟨c1, c', h1, hrun', ht'⟩ := Runs.exists_run_of_start step ok (start (smallConfig 200))
    [.joinMulticast "g" true true, .leaveMulticast "g"]
    (fun c => decide (c.packetManager.pool.freeBuffers.length = 72 ∧ "g" ∉ c.controller.multicastContextMap))
    (by decide +kernel)
  obtain ⟨hempty, hlast⟩ := of_decide_eq_true ht
  obtain ⟨hfree, hleft⟩ := of_decide_eq_true ht'
  refine ⟨c, c', ⟨c0, h0, hrun⟩, ⟨c1, h1, hrun'⟩, hempty, hlast, hfree, ?_⟩
  exact (packets_partitioned_by_groups ⟨c1, h1, hrun'⟩).2 "g" hleft

end ContextMcast

end RapidTransfer
