/-
Whether the packets last. A slot of a send queue takes a packet when it is first used, the ACK handle of a session when
the session is created, and both keep it: `Context` gives no packet back. With one packet for each receive handle, each
session and each slot, a queue that has fragments waiting has one in flight, in every state of every run
(`never_starved`). With fewer the pool can run empty, and then it stays empty: a queue that has nothing in flight and no
packet for its next slot does not move again, whatever arrives and whatever is called (`starved_forever`).
-/
import RapidTransfer.Queue.Supply
import RapidTransfer.Context.Ownership
import RapidTransfer.Context.Followed
import RapidTransfer.Context.Completion

namespace RapidTransfer

open Ownership RapidTransfer.Core

/-! ## One queue -/

/-- Nothing is in flight, and the next slot has no packet. -/
def SendQueue.Starved (q : SendQueue) : Prop :=
  q.ring.head = q.tail ∧ (q.ring.getMutableEntry q.ring.head).packetBuf = none

instance (q : SendQueue) : Decidable q.Starved := inferInstanceAs (Decidable (_ ∧ _))

theorem ackTail_self (tail sn : Nat) : ackTail tail tail sn = tail := by
  unfold ackTail
  simp only
  split
  · omega
  · split
    · omega
    · split
      · omega
      · rfl

namespace SendQueue.Starved

variable {q q' : SendQueue} {pool pool' : PacketBufferPool}

theorem restamped (h : q.Starved) (ht : q'.tail = q.tail) (hr : q.ring.Restamped q'.ring) :
    q'.Starved ∧ q'.tail = q.tail := by
  refine ⟨⟨by rw [hr.head, ht]; exact h.1, ?_⟩, ht⟩
  unfold SendRing.getMutableEntry
  rw [hr.head, hr.queueCapacity, Core.Restamped.packetBuf hr]
  exact h.2

theorem fill (h : q.Starved) (hpool : pool.freeBuffers = []) : q.fillPrimaryQueue pool = (0, q, pool) := by
  unfold fillPrimaryQueue
  rw [SendRing.fill_stuck h.2 hpool]

theorem push (h : q.Starved) (hpool : pool.freeBuffers = []) {bufs : List Buffer} {ret : Int} {sn : Nat}
    (hp : q.push bufs pool = some (ret, sn, q', pool')) : q'.Starved ∧ q'.tail = q.tail := by
  obtain ⟨ids, sq, -, -, hfill⟩ := push_some hp
  have hq : SendQueue.Starved { q with ring := { q.ring with secondaryQueue := sq } } := h
  rw [hq.fill hpool] at hfill
  cases hfill
  exact ⟨hq, rfl⟩

theorem ack (h : q.Starved) (hpool : pool.freeBuffers = []) (sn : Nat) : q.markCompleted sn pool = (0, q, pool) := by
  unfold markCompleted
  rw [h.1, ackTail_self]
  exact h.fill hpool

end SendQueue.Starved

/-! ## Where a queue comes from -/

namespace Context

variable {c c' c1 : Core} {e : Event} {sid ptr : Nat} {ret : Int}

/-- Where a send queue comes from that is there after an event. -/
inductive Origin (c : Core) : Event → Nat → SendQueue → Prop
  | kept {e : Event} {ptr : Nat} {q : SendQueue} (hq : c.packetManager.sendQueue ptr = some q) : Origin c e ptr q
  | made {e : Event} {ptr : Nat} {q : SendQueue} {m : PacketManager} (hopen : opens c e = some ptr)
      (hsize : PacketManager.SameSizes c.packetManager m) (hnone : c.packetManager.sendQueue ptr = none)
      (hq : SendQueue.construct m.raw m.mtuSize m.queueCapacity m.wndSize (ptr % 256) = some q) : Origin c e ptr q
  | pushed {p : String} {bufs : List Buffer} {sid ptr sn : Nat} {c1 : Core} {x : SessionInfo}
    {q q' : SendQueue} {ret : Int}
      {pool : PacketBufferPool} (hopen : opens c (.send p bufs) = some sid) (ho : c.openSession sid = some (0, c1))
      (hx : c1.activeSessionMap.lookup sid = some x) (hptr : x.sendQueue = some ptr)
      (hq : c1.packetManager.sendQueue ptr = some q)
      (hp : q.push bufs c1.packetManager.pool = some (ret, sn, q', pool)) : Origin c (.send p bufs) ptr q'
  | stamped {e : Event} {ptr : Nat} {q q' : SendQueue} (hq : c.packetManager.sendQueue ptr = some q)
      (ht : q'.tail = q.tail) (hr : q.ring.Restamped q'.ring) : Origin c e ptr q'
  | acked {ts cwnd sid ptr : Nat} {a : Arrival} {p : Packet} {x : SessionInfo} {q : SendQueue} (hp : a.packet = some p)
      (hx : c.activeSessionMap.lookup sid = some x) (hptr : x.sendQueue = some ptr)
      (hq : c.packetManager.sendQueue ptr = some q) :
      Origin c (.arrive ts a) ptr { (q.markCompleted p.sn c.packetManager.pool).2.1 with
        ring := followWnd (q.markCompleted p.sn c.packetManager.pool).2.1.ring cwnd }

/-- A session that is opened keeps the queues there are, and may get one of its own. -/
theorem origin_opened (ho : c.openSession sid = some (ret, c1)) {q : SendQueue}
    (hq : c1.packetManager.sendQueue ptr = some q) :
    c.packetManager.sendQueue ptr = some q ∨
      ptr = sid ∧ c.packetManager.sendQueue ptr = none ∧ ∃ m, PacketManager.SameSizes c.packetManager m ∧
        SendQueue.construct m.raw m.mtuSize m.queueCapacity m.wndSize (ptr % 256) = some q := by
  obtain he | ⟨pool, hs⟩ := openSession_manager ho
  · rw [he] at hq
    exact .inl hq
  · obtain he | ⟨hnone, q0, hq0, he⟩ := hs.send
    · rw [he] at hq
      exact .inl hq
    · rw [he] at hq
      by_cases hp : ptr = sid
      · subst hp
        rw [Function.update_self] at hq
        cases hq
        exact .inr ⟨rfl, hnone, _, ⟨rfl, rfl, rfl, rfl⟩, hq0⟩
      · rw [Function.update_of_ne hp] at hq
        exact .inl hq

theorem Origin.of_opened (hopen : opens c e = some sid) (ho : c.openSession sid = some (ret, c1)) {q : SendQueue}
    (hq : c1.packetManager.sendQueue ptr = some q) : Origin c e ptr q := by
  obtain hq | ⟨rfl, hnone, m, hsize, hm⟩ := origin_opened ho hq
  · exact .kept hq
  · exact .made hopen hsize hnone hm

theorem origin (hs : step c e = some c') {q' : SendQueue} (hq' : c'.packetManager.sendQueue ptr = some q') :
    Origin c e ptr q' := by
  cases effect hs with
  | refused hf ho => exact .of_opened hf ho hq'
  | @sendPushed p bufs k kptr sn c1 _ x q0 q1 ret pool hf ho hx hptr hq hpush hpu =>
    rw [hpu.packetManager] at hq'
    by_cases hk : ptr = kptr
    · subst hk
      cases (Function.update_self _ _ _).symm.trans hq'
      exact .pushed hf ho hx hptr hq hpush
    · refine .of_opened ?_ ho ((Function.update_of_ne hk _ _).symm.trans hq')
      exact hf
  | receivePushed hf ho _ _ _ _ hpu =>
    rw [hpu.packetManager] at hq'
    refine .of_opened ?_ ho hq'
    exact hf
  | acksSent h =>
    rw [sendAcks_packetManager h] at hq'
    exact .kept hq'
  | dataSent h =>
    obtain ⟨q, hq, ht, hr⟩ := sendDataPackets_rule (P := fun x => ∀ ptr q', x.packetManager.sendQueue ptr = some q' →
      ∃ q, c.packetManager.sendQueue ptr = some q ∧ q'.tail = q.tail ∧ q.ring.Restamped q'.ring)
      (by
        intro x sid b x' resent hx hses k q' hq'
        obtain rfl | ⟨e, kptr, q2, q3, st, ds, -, -, hq2, ht, hr, -, -, rfl⟩ := sendSession_some hses
        · exact hx k q' hq'
        · by_cases hk : k = kptr
          · subst hk
            cases (Function.update_self _ _ _).symm.trans hq'
            obtain ⟨q, hq, ht0, hr0⟩ := hx k q2 hq2
            exact ⟨q, hq, ht.trans ht0, hr0.trans hr⟩
          · exact hx k q' ((Function.update_of_ne hk _ _).symm.trans hq'))
      (fun k q hq => ⟨q, hq, rfl, .refl _⟩) h ptr q' hq'
    exact .stamped hq ht hr
  | dataArrived _ _ _ _ _ h =>
    obtain ⟨q', mv, mem, -, rfl⟩ := receiveData_some h
    exact .kept hq'
  | @ackArrived _ _ p _ kptr _ q _ hp _ hx hptr hq h =>
    obtain ⟨cwnd, incr, srtt, rttval, rfl⟩ := receiveAck_some h
    by_cases hk : ptr = kptr
    · subst hk
      cases (Function.update_self _ _ _).symm.trans hq'
      exact .acked hp hx hptr hq
    · exact .kept ((Function.update_of_ne hk _ _).symm.trans hq')
  | completed =>
    rw [completeSend_packetManager] at hq'
    exact .kept hq'
  | _ => exact .kept hq'

/-! ## A full pool -/

/-- Sessions are not closed. -/
theorem mem_opened (ho : c.openSession sid = some (ret, c1)) :
    sid ∈ c1.activeSessionMap ∧ ∀ k ∈ c.activeSessionMap, k ∈ c1.activeSessionMap := by
  have hset : ∀ (d : Core) (x : SessionInfo), d.activeSessionMap = c.activeSessionMap →
      sid ∈ (d.setSession sid x).activeSessionMap ∧ ∀ k ∈ c.activeSessionMap,
        k ∈ (d.setSession sid x).activeSessionMap := by
    intro d x hd
    refine ⟨(AList.mem_insert _).2 (.inl rfl), fun k hk => (AList.mem_insert _).2 (.inr ?_)⟩
    rw [hd]
    exact hk
  obtain ⟨x, hx, -, rfl⟩ | ⟨-, -, -, rfl⟩ | ⟨b, free, mgr, -, -, -, -, rfl⟩ := openSession_cases ho
  · exact ⟨AList.lookup_isSome.1 (by rw [hx]; rfl), fun _ hk => hk⟩
  · exact hset _ _ rfl
  · exact hset _ _ rfl

theorem mem_step (hs : step c e = some c') : ∀ k ∈ c.activeSessionMap, k ∈ c'.activeSessionMap := by
  cases ho : opens c e with
  | none =>
    intro k hk
    obtain ⟨x, hx⟩ := Option.isSome_iff_exists.1 (AList.lookup_isSome.2 hk)
    obtain ⟨x', hx', -⟩ := (step_kept hs ho).old k x hx
    exact AList.lookup_isSome.1 (by rw [hx']; rfl)
  | some sid =>
    obtain ⟨ret, c1, hopen, hm⟩ := step_opens hs ho
    rw [hm]
    exact (mem_opened hopen).2

/-- The places a context with queues of `capacity` slots can put packets into, with the sessions it has. -/
def places (capacity : Nat) (c : Core) : Finset Place :=
  (Finset.range kNumReceiveHandles).image Place.receive ∪ c.activeSessionMap.keys.toFinset.image Place.ack ∪
    (c.activeSessionMap.keys.toFinset ×ˢ Finset.range capacity).image fun x => Place.slot x.1 x.2

theorem mem_places {capacity : Nat} {p : Place} : p ∈ places capacity c ↔
    (∃ i < kNumReceiveHandles, p = .receive i) ∨ (∃ sid ∈ c.activeSessionMap, p = .ack sid) ∨
      ∃ sid k, sid ∈ c.activeSessionMap ∧ k < capacity ∧ p = .slot sid k := by
  simp only [places, Finset.mem_union, Finset.mem_image, Finset.mem_range, List.mem_toFinset, Finset.mem_product,
    Prod.exists, AList.mem_keys, or_assoc]
  constructor
  · rintro (⟨i, hi, rfl⟩ | ⟨sid, hsid, rfl⟩ | ⟨sid, k, ⟨hsid, hk⟩, rfl⟩)
    · exact .inl ⟨i, hi, rfl⟩
    · exact .inr (.inl ⟨sid, hsid, rfl⟩)
    · exact .inr (.inr ⟨sid, k, hsid, hk, rfl⟩)
  · rintro (⟨i, hi, rfl⟩ | ⟨sid, hsid, rfl⟩ | ⟨sid, k, hsid, hk, rfl⟩)
    · exact .inl ⟨i, hi, rfl⟩
    · exact .inr (.inl ⟨sid, hsid, rfl⟩)
    · exact .inr (.inr ⟨sid, k, ⟨hsid, hk⟩, rfl⟩)

theorem places_mono (capacity : Nat) (h : ∀ k ∈ c.activeSessionMap, k ∈ c'.activeSessionMap) :
    places capacity c ⊆ places capacity c' := by
  intro p hp
  rw [mem_places] at hp ⊢
  rcases hp with hp | ⟨sid, hsid, rfl⟩ | ⟨sid, k, hsid, hk, rfl⟩
  · exact .inl hp
  · exact .inr (.inl ⟨sid, h sid hsid, rfl⟩)
  · exact .inr (.inr ⟨sid, k, h sid hsid, hk, rfl⟩)

theorem card_places (capacity : Nat) (c : Core) :
    (places capacity c).card ≤ kNumReceiveHandles + c.activeSessionMap.keys.length * (capacity + 1) := by
  have hkeys := List.toFinset_card_le c.activeSessionMap.keys
  have h1 : ((Finset.range kNumReceiveHandles).image Place.receive).card ≤ kNumReceiveHandles :=
    Finset.card_image_le.trans (Finset.card_range _).le
  have h2 : (c.activeSessionMap.keys.toFinset.image Place.ack).card ≤ c.activeSessionMap.keys.length :=
    Finset.card_image_le.trans hkeys
  have h3 : ((c.activeSessionMap.keys.toFinset ×ˢ Finset.range capacity).image fun x => Place.slot x.1 x.2).card ≤
      c.activeSessionMap.keys.length * capacity := by
    refine Finset.card_image_le.trans ?_
    rw [Finset.card_product, Finset.card_range]
    exact Nat.mul_le_mul_right _ hkeys
  have hunion := (Finset.card_union_le _ _).trans
    (Nat.add_le_add ((Finset.card_union_le _ _).trans (Nat.add_le_add h1 h2)) h3)
  rw [Nat.mul_succ, Nat.add_comm (_ * _), ← Nat.add_assoc]
  exact hunion

/-- The packets, the sizes and the queues of a state, as the configuration has them. -/
structure Stocked (cfg : Config) (c : Core) : Prop where
  balanced : Balanced (Finset.range cfg.maxPackets) (c.holdings (Node.receiveHandles cfg) fun _ => none)
  within : ∀ p b, c.heldAt (Node.receiveHandles cfg) (fun _ => none) p = some b → p ∈ places cfg.queueCapacity c
  capacity : c.packetManager.queueCapacity = cfg.queueCapacity
  mtuSize : c.packetManager.mtuSize = cfg.mtuSize
  own : c.Entries (Own (·.sendQueue))
  opened : ∀ ptr q, c.packetManager.sendQueue ptr = some q → ptr ∈ c.activeSessionMap
  queues : ∀ ptr q, c.packetManager.sendQueue ptr = some q →
    q.ring.queueCapacity = cfg.queueCapacity ∧ q.ring.Ready q.tail ∧ q.ring.secondaryQueue.Loadable

namespace Stocked

variable {cfg : Config}

/-- With enough packets for the sessions there are, a slot finds one. -/
theorem free_ne_nil (h : Stocked cfg c) {n : Nat}
    (hroom : kNumReceiveHandles + n * (cfg.queueCapacity + 1) ≤ cfg.maxPackets)
    (hn : c.activeSessionMap.keys.length ≤ n) {p : Place} (hp : p ∈ places cfg.queueCapacity c)
    (hnone : c.heldAt (Node.receiveHandles cfg) (fun _ => none) p = none) : c.packetManager.pool.freeBuffers ≠ [] := by
  refine h.balanced.free_ne_nil h.within ?_ hp hnone
  rw [Finset.card_range]
  exact (card_places _ c).trans ((Nat.add_le_add_left (Nat.mul_le_mul_right _ hn) _).trans hroom)

/-- A queue that is made now. -/
theorem made (h : Stocked cfg c)
    (hmtu : 0 < fragmentSizeOf cfg.mtuSize) {m : PacketManager} {session : Nat} {q : SendQueue}
    (hsize : PacketManager.SameSizes c.packetManager m)
    (hq : SendQueue.construct m.raw m.mtuSize m.queueCapacity m.wndSize session = some q) :
    (q.ring.queueCapacity = cfg.queueCapacity ∧ q.ring.Ready q.tail ∧ q.ring.secondaryQueue.Loadable) ∧
      q.ring.secondaryQueue.pending = [] := by
  obtain ⟨r, hr, rfl⟩ := Option.map_eq_some_iff.1 hq
  have hready := SendRing.Ready.construct hr
  unfold SendRing.construct at hr
  split at hr
  · cases hr
    refine ⟨⟨hsize.queueCapacity.trans h.capacity, hready, SecondaryQueue.construct_wf ?_, fun b hb => ?_⟩, rfl⟩
    · rw [hsize.mtuSize, h.mtuSize]
      exact hmtu
    · cases hb
  · cases hr

theorem openSession (h : Stocked cfg c) (hmtu : 0 < fragmentSizeOf cfg.mtuSize)
    (ho : c.openSession sid = some (ret, c1)) : Stocked cfg c1 := by
  obtain ⟨hsid, hgrow⟩ := mem_opened ho
  have hack : Place.ack sid ∈ (places cfg.queueCapacity c1 : Set Place) :=
    Finset.mem_coe.2 (mem_places.2 (.inr (.inl ⟨sid, hsid, rfl⟩)))
  have htakes : Takes (places cfg.queueCapacity c1 : Set Place) (c.holdings (Node.receiveHandles cfg) fun _ => none)
      (c1.holdings (Node.receiveHandles cfg) fun _ => none) := openSession_takes hack ho
  have hsizes := (openSession_queuesAt ho sid).2.2.1
  have hmono := places_mono cfg.queueCapacity hgrow
  refine ⟨h.balanced.moves htakes.moves, htakes.held_mem fun p b hp => hmono (h.within p b hp),
    hsizes.queueCapacity.trans h.capacity, hsizes.mtuSize.trans h.mtuSize, h.own.opened entryRule_ownSend ho,
    fun ptr q hq => ?_, fun ptr q hq => ?_⟩
  · obtain hq | ⟨rfl, -⟩ := origin_opened ho hq
    · exact hgrow ptr (h.opened ptr q hq)
    · exact hsid
  · obtain hq | ⟨-, -, m, hsize, hm⟩ := origin_opened ho hq
    · exact h.queues ptr q hq
    · exact (h.made hmtu hsize hm).1

end Stocked

/-- The buffers a call sends have addresses. -/
def Addressed : Event → Prop
  | .send _ bufs => ∀ b ∈ bufs, b.addr ≠ 0
  | _ => True

instance : ∀ e, Decidable (Addressed e)
  | .send _ bufs => inferInstanceAs (Decidable (∀ b ∈ bufs, b.addr ≠ 0))
  | .setupConnection .. => inferInstanceAs (Decidable True)
  | .receive .. => inferInstanceAs (Decidable True)
  | .freeTask .. => inferInstanceAs (Decidable True)
  | .sendAcks .. => inferInstanceAs (Decidable True)
  | .sendData .. => inferInstanceAs (Decidable True)
  | .arrive .. => inferInstanceAs (Decidable True)
  | .sent .. => inferInstanceAs (Decidable True)

namespace Stocked

variable {cfg : Config}

/-- The capacity, the live range and the waiting buffers of the queues after an event. -/
theorem queues_step (h : Stocked cfg c) (hmtu : 0 < fragmentSizeOf cfg.mtuSize) (hok : Addressed e)
    (hs : Context.step c e = some c') {q : SendQueue} (hq : c'.packetManager.sendQueue ptr = some q) :
    ptr ∈ c'.activeSessionMap ∧ q.ring.queueCapacity = cfg.queueCapacity ∧ q.ring.Ready q.tail ∧
      q.ring.secondaryQueue.Loadable := by
  cases origin hs hq with
  | kept hold => exact ⟨mem_step hs ptr (h.opened ptr q hold), h.queues ptr q hold⟩
  | made hopen hsize _ hm =>
    obtain ⟨ret, c1, ho, hmap⟩ := step_opens hs hopen
    refine ⟨?_, (h.made hmtu hsize hm).1⟩
    rw [hmap]
    exact (mem_opened ho).1
  | @pushed _ bufs sid _ sn c1 x q0 _ ret pool hopen ho _ _ hq0 hp =>
    have h1 := h.openSession hmtu ho
    obtain ⟨hcap, hready, hload⟩ := h1.queues ptr q0 hq0
    obtain ⟨ret', c2, ho', hmap⟩ := step_opens hs hopen
    cases ho.symm.trans ho'
    refine ⟨by rw [hmap]; exact h1.opened ptr q0 hq0, ?_, sendRule_ready.push hready trivial hp, ?_⟩
    · obtain ⟨ids, sq, -, -, hfill⟩ := SendQueue.push_some hp
      rw [show q = _ from congrArg (·.2.1) hfill.symm]
      exact (SendRing.fill_frame q0.tail (q0.ring.wndSize + 1) { q0.ring with secondaryQueue := sq } _).2.1.trans hcap
    · obtain ⟨ids, sq, hsq, -, hfill⟩ := SendQueue.push_some hp
      rw [show q = _ from congrArg (·.2.1) hfill.symm]
      exact SendRing.loadable_fill (r := { q0.ring with secondaryQueue := sq }) (hload.push hok hsq) q0.tail
        (q0.ring.wndSize + 1) c1.packetManager.pool
  | stamped hold ht hr =>
    obtain ⟨hcap, hready, hload⟩ := h.queues ptr _ hold
    refine ⟨mem_step hs ptr (h.opened ptr _ hold), hr.queueCapacity.trans hcap, sendRule_ready.restamp hready ht hr, ?_⟩
    rw [hr.secondaryQueue]
    exact hload
  | @acked _ cwnd _ _ _ p _ q0 hp _ _ hold =>
    obtain ⟨hcap, hready, hload⟩ := h.queues ptr q0 hold
    have hr := (SendRing.Restamped.refl (q0.markCompleted p.sn c.packetManager.pool).2.1.ring).followWnd cwnd
    have hacked := sendRule_ready.ack c.packetManager.pool hready (deserialize_bounds hp).2
    refine ⟨mem_step hs ptr (h.opened ptr _ hold), hr.queueCapacity.trans ?_, sendRule_ready.restamp hacked rfl hr, ?_⟩
    · exact (SendRing.fill_frame _ (q0.ring.wndSize + 1) q0.ring c.packetManager.pool).2.1.trans hcap
    · show (followWnd _ cwnd).secondaryQueue.Loadable
      rw [hr.secondaryQueue]
      exact SendRing.loadable_fill hload (ackTail q0.tail q0.ring.head p.sn) (q0.ring.wndSize + 1) c.packetManager.pool

theorem step (h : Stocked cfg c) (hmtu : 0 < fragmentSizeOf cfg.mtuSize) (hcap : 0 < cfg.queueCapacity)
    (hok : Addressed e) (hs : Context.step c e = some c') : Stocked cfg c' := by
  have hqueues : ∀ ptr q, c'.packetManager.sendQueue ptr = some q → _ := fun _ _ hq => h.queues_step hmtu hok hs hq
  have htakes : Takes (places cfg.queueCapacity c' : Set Place) (c.holdings (Node.receiveHandles cfg) fun _ => none)
      (c'.holdings (Node.receiveHandles cfg) fun _ => none) := by
    refine step_takes hs (fun sid ho => ?_) fun ptr q hq i => ?_
    · obtain ⟨ret, c1, hopen, hm⟩ := step_opens hs ho
      refine Finset.mem_coe.2 (mem_places.2 (.inr (.inl ⟨sid, ?_, rfl⟩)))
      rw [hm]
      exact (mem_opened hopen).1
    · obtain ⟨hmem, hq, -⟩ := hqueues ptr q hq
      rw [hq]
      exact Finset.mem_coe.2 (mem_places.2 (.inr (.inr ⟨ptr, _, hmem, Nat.mod_lt i hcap, rfl⟩)))
  have hsizes := step_sameSizes hs
  have hmono := places_mono cfg.queueCapacity (mem_step hs)
  exact ⟨h.balanced.moves htakes.moves, htakes.held_mem fun p b hp => hmono (h.within p b hp),
    hsizes.queueCapacity.trans h.capacity, hsizes.mtuSize.trans h.mtuSize, entries_step entryRule_ownSend h.own hs,
    fun ptr q hq => (hqueues ptr q hq).1, fun ptr q hq => (hqueues ptr q hq).2⟩

/-- After `construct` the receive handles have their packets. -/
theorem start {c0 : Core} (h : Context.start cfg = some c0) : Stocked cfg c0 := by
  have hbal := balanced_construct h
  obtain ⟨⟨hs, pool⟩, halloc, rfl⟩ := Option.map_eq_some_iff.1 h
  have hnone : ∀ {p b}, (none : Option SendQueue) = some b → p := fun h => by cases h
  refine ⟨hbal, fun p b hp => ?_, rfl, rfl, fun _ _ he => (by cases he), fun _ _ hq => hnone hq, fun _ _ hq => hnone hq⟩
  cases p with
  | receive i =>
    obtain ⟨hd, hi, -⟩ := Option.bind_eq_some_iff.1 hp
    have hlen : (Node.receiveHandles cfg).length = kNumReceiveHandles := by
      split at halloc
      · cases halloc
      · unfold Node.receiveHandles
        rw [halloc]
        exact (Node.allocateMany_packets halloc).2
    exact mem_places.2 (.inl ⟨i, hlen ▸ (List.getElem?_eq_some_iff.1 hi).1, rfl⟩)
  | _ => cases hp

end Stocked

/-- A queue with fragments waiting has one in flight. -/
def Ahead (c : Core) : Prop :=
  ∀ ptr q, c.packetManager.sendQueue ptr = some q → q.ring.secondaryQueue.pending ≠ [] → q.tail < q.ring.head

section Enough

variable {cfg : Config} {n : Nat}

/-- The next slot of a queue finds a packet. -/
theorem Stocked.claimable (h : Stocked cfg c) (hcap : 0 < cfg.queueCapacity)
    (hroom : kNumReceiveHandles + n * (cfg.queueCapacity + 1) ≤ cfg.maxPackets)
    (hn : c.activeSessionMap.keys.length ≤ n)
    {q : SendQueue} (hq : c.packetManager.sendQueue ptr = some q) : q.ring.Claimable c.packetManager.pool := by
  by_cases hown : (q.ring.getMutableEntry q.ring.head).packetBuf.isSome = true
  · exact .inl hown
  · have hnone : c.heldAt (Node.receiveHandles cfg) (fun _ => none)
        (.slot ptr (q.ring.head % cfg.queueCapacity)) = none := by
      rw [heldAt, hq, ← (h.queues ptr q hq).1]
      exact Option.not_isSome_iff_eq_none.1 hown
    refine .inr (h.free_ne_nil hroom hn (mem_places.2 (.inr (.inr ⟨ptr, _, h.opened ptr q hq, ?_, rfl⟩))) hnone)
    exact Nat.mod_lt _ hcap

/-- So does the ACK handle of one more session. -/
theorem Stocked.free_for_session (h : Stocked cfg c)
    (hroom : kNumReceiveHandles + n * (cfg.queueCapacity + 1) ≤ cfg.maxPackets)
    (hn : c.activeSessionMap.keys.length < n)
    (hnew : sid ∉ c.activeSessionMap) : c.packetManager.pool.freeBuffers ≠ [] := by
  have hnone : c.heldAt (Node.receiveHandles cfg) (fun _ => none) (.ack sid) = none := by
    rw [heldAt, AList.lookup_eq_none.2 hnew]
    rfl
  refine h.balanced.free_ne_nil (S := insert (.ack sid) (places cfg.queueCapacity c)) (p := .ack sid)
    (fun p b hp => Finset.mem_insert_of_mem (h.within p b hp)) ?_ (Finset.mem_insert_self _ _) hnone
  have hcard := card_places cfg.queueCapacity c
  have hmul : (c.activeSessionMap.keys.length + 1) * (cfg.queueCapacity + 1) ≤ n * (cfg.queueCapacity + 1) :=
    Nat.mul_le_mul_right _ hn
  rw [Nat.succ_mul] at hmul
  have hinsert := Finset.card_insert_le (Place.ack sid) (places cfg.queueCapacity c)
  rw [Finset.card_range]
  omega

theorem keys_mono (h : ∀ k ∈ c.activeSessionMap, k ∈ c'.activeSessionMap) :
    c.activeSessionMap.keys.length ≤ c'.activeSessionMap.keys.length :=
  (c.activeSessionMap.keys_nodup.subperm fun k hk => AList.mem_keys.1 (h k (AList.mem_keys.2 hk))).length_le

theorem Ahead.step (ha : Ahead c) (h : Stocked cfg c) (hmtu : 0 < fragmentSizeOf cfg.mtuSize)
    (hcap : 0 < cfg.queueCapacity)
    (hroom : kNumReceiveHandles + n * (cfg.queueCapacity + 1) ≤ cfg.maxPackets) (hok : Addressed e)
    (hs : Context.step c e = some c') (hn : c'.activeSessionMap.keys.length ≤ n) : Ahead c' := by
  intro ptr q hq hne
  cases origin hs hq with
  | kept hold => exact ha ptr q hold hne
  | made _ hsize _ hm => exact absurd (h.made hmtu hsize hm).2 hne
  | @pushed _ bufs sid _ sn c1 x q0 _ ret pool hopen ho _ _ hq0 hp =>
    have h1 := h.openSession hmtu ho
    obtain ⟨-, hready, hload⟩ := h1.queues ptr q0 hq0
    obtain ⟨ret', c2, ho', hmap⟩ := step_opens hs hopen
    cases ho.symm.trans ho'
    obtain ⟨ids, sq, hsq, -, hfill⟩ := SendQueue.push_some hp
    have hclaim := h1.claimable hcap hroom (hmap ▸ hn) hq0
    rw [show q = _ from congrArg (·.2.1) hfill.symm] at hne ⊢
    exact SendRing.fill_ahead (r := { q0.ring with secondaryQueue := sq }) (hload.push hok hsq) hready.tailLe
      (fun _ => hclaim) q0.ring.wndSize hne
  | stamped hold ht hr =>
    rw [hr.secondaryQueue] at hne
    rw [ht, hr.head]
    exact ha ptr _ hold hne
  | @acked _ cwnd _ _ _ p _ q0 hp _ _ hold =>
    obtain ⟨-, hready, hload⟩ := h.queues ptr q0 hold
    have hr := (SendRing.Restamped.refl (q0.markCompleted p.sn c.packetManager.pool).2.1.ring).followWnd cwnd
    have hclaim := h.claimable hcap hroom ((keys_mono (mem_step hs)).trans hn) hold
    rw [hr.secondaryQueue] at hne
    show (q0.markCompleted p.sn c.packetManager.pool).2.1.tail < (followWnd _ cwnd).head
    rw [hr.head]
    exact SendRing.fill_ahead hload (hready.ack (deserialize_bounds hp).2).tailLe (fun _ => hclaim) q0.ring.wndSize hne

/-- With a packet for every receive handle, and for every session one more than its queue has slots: in every state of
every run with that many sessions, a send queue with fragments waiting has one in flight, so that an ACK is to come for
it; and as long as there are fewer sessions, none is refused. -/
theorem never_starved {c0 : Core} {es : List Event} (hmtu : 0 < fragmentSizeOf cfg.mtuSize)
    (hcap : 0 < cfg.queueCapacity)
    (hroom : kNumReceiveHandles + n * (cfg.queueCapacity + 1) ≤ cfg.maxPackets) (h0 : start cfg = some c0)
    (hrun : Runs.Run step (fun c e => ok c e ∧ Addressed e) c0 es c) (hn : c.activeSessionMap.keys.length ≤ n) :
    (∀ sid q, c.packetManager.sendQueue sid = some q → q.ring.secondaryQueue.pending ≠ [] → q.tail < q.ring.head) ∧
      (c.activeSessionMap.keys.length < n → ∀ sid ret c', c.openSession sid = some (ret, c') → ret = 0) := by
  obtain ⟨hst, hahead⟩ := hrun.invariant
    (P := fun c => Stocked cfg c ∧ (c.activeSessionMap.keys.length ≤ n → Ahead c))
    ⟨.start h0, fun _ ptr q hq => by
      obtain ⟨r, -, rfl⟩ := Option.map_eq_some_iff.1 h0
      cases hq⟩
    (by
      rintro x e x' ⟨hx, ha⟩ ⟨-, hok⟩ hs
      refine ⟨hx.step hmtu hcap hok hs, fun hn' => ?_⟩
      exact (ha ((keys_mono (mem_step hs)).trans hn')).step hx hmtu hcap hroom hok hs hn')
  refine ⟨hahead hn, fun hlt sid ret c' ho => ?_⟩
  obtain ⟨_, -, hret, -⟩ | ⟨hnew, hnil, -, -⟩ | ⟨_, _, _, -, -, -, hret, -⟩ := openSession_cases ho
  · exact hret
  · exact absurd hnil (hst.free_for_session hroom hlt (AList.lookup_eq_none.1 hnew))
  · exact hret

/-- Two sessions fit the pool: one sends 100 fragments over a ring of 64 slots, 65 of them are in flight at first, and
none of the 35 that wait is forgotten after one is acknowledged. -/
theorem never_starved_sample : ∃ c0 c, start (smallConfig 258) = some c0 ∧
    Runs.Run step (fun c e => ok c e ∧ Addressed e) c0
      [.setupConnection "b" 7 [1] [1] true, .send "b" [⟨1000, 200⟩],
        .arrive 9 (Exchange.arrivalOf 7 ⟨0, 1, 8, 1, 0, false, []⟩)] c ∧
    (∀ sid q, c.packetManager.sendQueue sid = some q → q.ring.secondaryQueue.pending ≠ [] → q.tail < q.ring.head) ∧
    ∀ sid ret c', c.openSession sid = some (ret, c') → ret = 0 := by
  obtain ⟨c0, c, h0, hrun, ht⟩ :=
    Runs.exists_run_of_start step (fun c e => ok c e ∧ Addressed e) (start (smallConfig 258))
    [.setupConnection "b" 7 [1] [1] true, .send "b" [⟨1000, 200⟩],
      .arrive 9 (Exchange.arrivalOf 7 ⟨0, 1, 8, 1, 0, false, []⟩)]
    (fun c => decide (c.activeSessionMap.keys.length = 1)) (by decide +kernel)
  have hkeys := of_decide_eq_true ht
  have hroom : kNumReceiveHandles + 2 * ((smallConfig 258).queueCapacity + 1) ≤ (smallConfig 258).maxPackets := by
    decide
  obtain ⟨hflow, hopen⟩ := never_starved (n := 2) (by decide) (by decide) hroom h0 hrun (by omega)
  exact ⟨c0, c, h0, hrun, hflow, hopen (by omega)⟩

end Enough

/-! ## An empty pool -/

/-- The queue of a session stands where it was. -/
def Stands (c : Core) (ptr tail : Nat) : Prop :=
  ∃ q, c.packetManager.sendQueue ptr = some q ∧ q.Starved ∧ q.tail = tail

/-- A queue that is there stays there. -/
theorem sendQueue_step (hs : step c e = some c') {q : SendQueue} (hq : c.packetManager.sendQueue ptr = some q) :
    ∃ q', c'.packetManager.sendQueue ptr = some q' := by
  have hr : SendMapRule (fun _ _ => True) fun m => ∃ q, m ptr = some q ∧ True :=
    { construct := fun hm hnone _ => Queues.exists_insert hm hnone _
      push := fun hm hold _ _ => Queues.exists_update hm hold fun _ => trivial
      ack := fun _ hm hold _ => Queues.exists_update hm hold fun _ => trivial
      restamp := fun hm hold _ _ => Queues.exists_update hm hold fun _ => trivial }
  obtain ⟨q', hq', -⟩ := sendMap_step hr ⟨q, hq, trivial⟩ (fun _ _ _ => trivial) hs
  exact ⟨q', hq'⟩

/-- With an empty pool a starved queue stays where it is. -/
theorem Stands.step {tail : Nat} (h : Stands c ptr tail) (hfree : c.packetManager.pool.freeBuffers = [])
    (hs : Context.step c e = some c') : Stands c' ptr tail := by
  obtain ⟨q, hq, hst, rfl⟩ := h
  obtain ⟨q', hq'⟩ := sendQueue_step hs hq
  refine ⟨q', hq', ?_⟩
  cases origin hs hq' with
  | kept hold =>
    obtain rfl := Option.some.inj (hq.symm.trans hold)
    exact ⟨hst, rfl⟩
  | made _ _ hnone _ =>
    rw [hq] at hnone
    cases hnone
  | pushed _ ho _ _ hq0 hp =>
    -- the session was open: a new one would have found no packet
    obtain ⟨_, -, -, rfl⟩ | ⟨-, -, hret, -⟩ | ⟨b, free, mgr, -, hb, -, -, -⟩ := openSession_cases ho
    · obtain rfl := Option.some.inj (hq.symm.trans hq0)
      exact hst.push hfree hp
    · cases hret
    · rw [hfree] at hb
      cases hb
  | stamped hold ht hr =>
    obtain rfl := Option.some.inj (hq.symm.trans hold)
    exact hst.restamped ht hr
  | @acked _ cwnd _ _ _ p _ _ _ _ _ hold =>
    obtain rfl := Option.some.inj (hq.symm.trans hold)
    rw [hst.ack hfree]
    exact hst.restamped rfl ((SendRing.Restamped.refl _).followWnd cwnd)

/-- With an empty pool no packet changes its place. -/
theorem holdings_step (recv : List PacketHandle) (groups : String → Option (List PacketHandle))
    (hfree : c.packetManager.pool.freeBuffers = []) (hs : step c e = some c') :
    c'.holdings recv groups = c.holdings recv groups := by
  have htakes : Takes Set.univ (c.holdings recv groups) (c'.holdings recv groups) :=
    step_takes hs (fun _ _ => Set.mem_univ _) fun _ _ _ _ => Set.mem_univ _
  exact htakes.eq_of_nil hfree

/-- What a state with an empty pool leads to. -/
structure Follows (recv : List PacketHandle) (c x : Core) : Prop where
  holdings : x.holdings recv (fun _ => none) = c.holdings recv fun _ => none
  stands : ∀ ptr tail, Stands c ptr tail → Stands x ptr tail

theorem follows_run {recv : List PacketHandle} {fs : List Event} (hfree : c.packetManager.pool.freeBuffers = [])
    (hrun : Runs.Run step ok c fs c') : Follows recv c c' := by
  refine hrun.invariant (P := Follows recv c) ⟨rfl, fun _ _ h => h⟩ fun x e x' hx _ hs => ?_
  have hempty : x.packetManager.pool.freeBuffers = [] := (congrArg Holdings.free hx.holdings).trans hfree
  constructor
  · exact (holdings_step recv _ hempty hs).trans hx.holdings
  · exact fun ptr tail h => (hx.stands ptr tail h).step hempty hs

/-- Once the pool is empty it stays empty and no packet changes its place, in any continuation. A send queue that has
nothing in flight then and no packet for its next slot stays where it is, and a task of it keeps the status it has until
it is freed, if no later call is given its id. -/
theorem starved_forever (cfg : Config) {fs : List Event} (hfree : c.packetManager.pool.freeBuffers = [])
    (hrun : Runs.Run step ok c fs c') :
    c'.packetManager.pool.freeBuffers = [] ∧
    (∀ p, c'.heldAt (Node.receiveHandles cfg) (fun _ => none) p =
      c.heldAt (Node.receiveHandles cfg) (fun _ => none) p) ∧
    ∀ ptr q, c.packetManager.sendQueue ptr = some q → q.Starved →
      (∃ q', c'.packetManager.sendQueue ptr = some q' ∧ q'.tail = q.tail ∧ q'.ring.head = q.ring.head) ∧
      ∀ id t, c.taskMap id = some t → t.isSend = true → t.queue = ptr →
        Runs.Run step (fun x f => ok x f ∧ makesTask id x f = false) c fs c' →
        getStatus c' id = getStatus c id ∨ getStatus c' id = some .unknown := by
  have hf : Follows (Node.receiveHandles cfg) c c' := follows_run hfree hrun
  refine ⟨(congrArg Holdings.free hf.holdings).trans hfree, fun p => congrFun (congrArg Holdings.held hf.holdings) p,
    fun ptr q hq hst => ?_⟩
  obtain ⟨q', hq', hst', htail⟩ := hf.stands ptr q.tail ⟨q, hq, hst, rfl⟩
  have hhead : q'.ring.head = q.ring.head := by rw [hst'.1, htail, hst.1]
  refine ⟨⟨q', hq', htail, hhead⟩, fun id t ht hsend hptr hkeeps => ?_⟩
  subst hptr
  unfold getStatus
  rcases task_run hkeeps (fun _ _ hok => hok.2) (.inl ht) with ht' | ht'
  · left
    simp only [ht', ht, hsend, if_true, hq', hq, Option.map_some, SendQueue.getAckSN, SendQueue.getNextSN, htail, hhead]
  · right
    rw [ht']

/-- A pool of 129 packets: the receive handles and the ACK handle of the first session have them all. The send is
accepted, and its task is pending after another send, a round of `sendDataPackets` and an ACK. -/
theorem starved_by_first_session : ∃ c c', Reachable (smallConfig 129)
      [.setupConnection "b" 7 [1] [1] true, .send "b" [⟨100, 1⟩]] c ∧
    Runs.Run step ok c [.send "b" [⟨102, 1⟩], .sendData 1000000 [0] fun _ _ => ⟨0, 4⟩,
      .arrive 1000100 (Exchange.arrivalOf 7 ⟨0, 1, 8, 1, 0, false, []⟩)] c' ∧
    getStatus c 0 = some .pending ∧ c'.packetManager.pool.freeBuffers = [] ∧
    (getStatus c' 0 = some .pending ∨ getStatus c' 0 = some .unknown) := by
  obtain ⟨c0, c, h0, hrun, ht⟩ := Runs.exists_run_of_start step ok (start (smallConfig 129))
    [.setupConnection "b" 7 [1] [1] true, .send "b" [⟨100, 1⟩]]
    (fun c : Core => decide (c.packetManager.pool.freeBuffers = [] ∧ getStatus c 0 = some .pending ∧
        c.taskMap 0 = some ⟨0, 1, true, 0⟩) &&
      (c.packetManager.sendQueue 0).any (fun q : SendQueue => decide q.Starved) &&
      (Runs.exec step (fun x f => ok x f ∧ makesTask 0 x f = false) c [.send "b" [⟨102, 1⟩],
        .sendData 1000000 [0] fun _ _ => ⟨0, 4⟩,
        .arrive 1000100 (Exchange.arrivalOf 7 ⟨0, 1, 8, 1, 0, false, []⟩)]).isSome) (by decide +kernel)
  obtain ⟨ht, hx⟩ := Bool.and_eq_true_iff.1 ht
  obtain ⟨ht, hq⟩ := Bool.and_eq_true_iff.1 ht
  obtain ⟨hfree, hpending, htask⟩ := of_decide_eq_true ht
  obtain ⟨q, hq, hst⟩ := (Option.any_eq_true _ _).1 hq
  obtain ⟨c', hc'⟩ := Option.isSome_iff_exists.1 hx
  have hkeeps := Runs.run_of_exec hc'
  have hrun' : Runs.Run step ok c _ c' := hkeeps.weaken fun _ _ hok => hok.1
  obtain ⟨hempty, -, hstuck⟩ := starved_forever (smallConfig 129) hfree hrun'
  refine ⟨c, c', ⟨c0, h0, hrun⟩, hrun', hpending, hempty, ?_⟩
  rw [← hpending]
  exact (hstuck 0 q hq (of_decide_eq_true hst)).2 0 _ htask rfl rfl hkeeps

end Context

end RapidTransfer
