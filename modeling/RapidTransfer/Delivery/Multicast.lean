/-
End-to-end multicast delivery: one multicast send queue and one receive queue for each of its
replicas. A transmission reaches any number of receivers, in any order and any number of times; the
ACKs of a receiver move that receiver's entry of `tail_list_`, and the slots of the ring are given
out against the least entry.

The invariant is that of the unicast case with the least tail in place of `tail_`, and one
`ReceiverOK` for each replica; nothing relates two receivers to each other.
-/
import RapidTransfer.Delivery.Network
import RapidTransfer.Lib.Runs

namespace RapidTransfer.Multicast

/-! ## The system -/

/-- The parameters of the sender and of its `n` replicas. -/
structure Config where
  n : Nat
  mtuSize : Nat
  sendCapacity : Nat
  recvCapacity : Fin n → Nat
  sendWnd : Nat
  recvWnd : Fin n → Nat
  session : Nat
  raw : PacketHandle
  lens : Nat → Nat
  smem : Nat → UInt8
  mem0 : Fin n → Nat → UInt8
  n_pos : 0 < n
  fragment_pos : 0 < fragmentSizeOf mtuSize
  sendWnd_lt : sendWnd < sendCapacity
  recvWnd_lt : ∀ r, recvWnd r < recvCapacity r
  recvCapacity_pow : ∀ r, ∃ k ≤ 24, recvCapacity r = 2 ^ k

structure State (n : Nat) where
  sender : McastSendQueue
  sent : List Buffer
  receivers : Fin n → Receiver
  data : List DataMsg
  acks : List (Fin n × AckMsg)

inductive Event (n : Nat)
  | send (bufs : List Buffer) (pool : PacketBufferPool)
  | receive (r : Fin n) (bufs : List Buffer)
  | setSendWnd (w : Nat)
  | setRecvWnd (r : Fin n) (w : Nat)
  | transmit (index ts : Nat)
  | deliverData (r : Fin n) (m : DataMsg)
  | emitAck (r : Fin n)
  | deliverAck (r : Fin n) (a : AckMsg) (pool : PacketBufferPool)

/-- The receive queue of a replica at the start. -/
def startQueue (c : Config) (r : Fin c.n) : Option ReceiveQueue :=
  ReceiveQueue.construct c.mtuSize (c.recvCapacity r) (c.recvWnd r) c.session

/-- A start state: every queue as its constructor leaves it. -/
def Start (c : Config) (s : State c.n) : Prop :=
  McastSendQueue.construct c.raw c.mtuSize c.sendCapacity c.sendWnd c.session c.n = some s.sender ∧
    s.sent = [] ∧ (∀ r, startQueue c r = some (s.receivers r).queue ∧ (s.receivers r).posted = [] ∧
      (s.receivers r).mem = c.mem0 r ∧ (s.receivers r).writes = []) ∧ s.data = [] ∧ s.acks = []

def step (c : Config) (s : State c.n) : Event c.n → Option (State c.n)
  | .send bufs pool => (s.sender.push bufs pool).map fun q => { s with sender := q.2.2.1, sent := s.sent ++ bufs }
  | .receive r bufs => ((s.receivers r).post bufs).map fun x => { s with receivers := Function.update s.receivers r x }
  | .setSendWnd w => some { s with sender := s.sender.setWndSize w }
  | .setRecvWnd r w => some { s with receivers := Function.update s.receivers r ((s.receivers r).setWndSize w) }
  | .transmit i ts => (s.sender.ring.transmit c.smem i ts).map fun x =>
      { s with sender := { s.sender with ring := x.1 }, data := s.data ++ [x.2] }
  | .deliverData r m => ((s.receivers r).deliver m).map fun x => { s with receivers := Function.update s.receivers r x }
  | .emitAck r => some { s with acks := s.acks ++ [(r, (s.receivers r).ack)] }
  | .deliverAck r a pool => some { s with sender := (s.sender.markCompleted r a.sn pool).2.1 }

/-- What is assumed of an event; as in the unicast case, for each replica. -/
def ok (c : Config) (s : State c.n) : Event c.n → Prop
  | .send bufs _ => (∀ b ∈ bufs, b.addr ≠ 0) ∧ HasLengths c.lens (s.sent ++ bufs)
  | .receive r bufs => HasLengths c.lens ((s.receivers r).posted ++ bufs)
  | .setSendWnd w => (s.sender.ring.setWndSize w).wndSize < s.sender.ring.queueCapacity
  | .setRecvWnd r w => ((s.receivers r).queue.setWndSize w).wndSize < (s.receivers r).queue.queueCapacity
  | .transmit i _ => s.sender.getMinTailIndex ≤ i ∧ i < s.sender.ring.head
  | .deliverData r m => m ∈ s.data ∧ (s.receivers r).queue.tail + (s.receivers r).queue.wndSize ≤ m.index + 2 ^ 24
  | .emitAck _ => True
  | .deliverAck r a _ => (r, a) ∈ s.acks ∧ s.sender.ring.head < a.value + 2 ^ 24

instance (c : Config) (s : State c.n) : ∀ e, Decidable (ok c s e)
  | .send _ _ => inferInstanceAs (Decidable (_ ∧ _))
  | .receive _ _ => inferInstanceAs (Decidable (HasLengths _ _))
  | .setSendWnd _ => inferInstanceAs (Decidable (_ < _))
  | .setRecvWnd _ _ => inferInstanceAs (Decidable (_ < _))
  | .transmit _ _ => inferInstanceAs (Decidable (_ ∧ _))
  | .deliverData _ _ => inferInstanceAs (Decidable (_ ∧ _))
  | .emitAck _ => inferInstanceAs (Decidable True)
  | .deliverAck _ _ _ => inferInstanceAs (Decidable (_ ∧ _))

/-! ## The joint invariant -/

/-- One replica against the sender. -/
structure ReplicaInv (c : Config) (sent : List Buffer) (head : Nat) (r : Fin c.n) (x : Receiver) : Prop where
  receiver : ReceiverOK (fragmentSizeOf c.mtuSize) sent c.smem (c.mem0 r) head x
  postedLens : HasLengths c.lens x.posted

structure Inv (c : Config) (s : State c.n) : Prop where
  sender : SenderInv (fragmentSizeOf c.mtuSize) s.sent s.sender.getMinTailIndex s.sender.ring
  replicas : ∀ r, ReplicaInv c s.sent s.sender.ring.head r (s.receivers r)
  sentLens : HasLengths c.lens s.sent
  data : ∀ m ∈ s.data, Sent (fragments (fragmentSizeOf c.mtuSize) s.sent) c.smem s.sender.ring.head m
  acks : ∀ p ∈ s.acks, p.2.value ≤ (s.receivers p.1).queue.tail ∧ p.2.sn = shortSN p.2.value
  count : s.sender.tailList.length = c.n
  tails : ∀ (r : Fin c.n) (t : Nat), s.sender.tailList[(r : Nat)]? = some t → t ≤ (s.receivers r).queue.tail

variable {c : Config} {s s' : State c.n}

theorem start_inv (h : Start c s) : Inv c s := by
  obtain ⟨hq, hsent, hrecv, hdata, hacks⟩ := h
  obtain ⟨ring, hring, hs⟩ := Option.map_eq_some_iff.1 hq
  have hinv := SenderInv.construct hring c.fragment_pos c.sendWnd_lt
  have hmin : s.sender.getMinTailIndex = 0 := by
    rw [← hs]
    exact McastSendQueue.getMinTailIndex_replicate ring c.n_pos.ne'
  refine ⟨by rw [hmin, hsent, ← hs]; exact hinv, fun r => ?_, hsent ▸ .nil _, by simp [hdata], by simp [hacks],
    by simp [← hs], fun r t ht => ?_⟩
  · obtain ⟨hc, hp, hm, hw⟩ := hrecv r
    obtain ⟨k, hk, hcap⟩ := c.recvCapacity_pow r
    have := ReceiverInv.construct hc c.fragment_pos (c.recvWnd_lt r) (hcap ▸ Nat.pow_dvd_pow 2 hk)
    exact ⟨⟨by rw [hp, hw]; simpa using this, by simp [hw], by simp [hw], by simp [hw], by simp [hw, hm]⟩,
      hp ▸ .nil _⟩
  · rw [← hs] at ht
    rw [List.eq_of_mem_replicate (List.mem_of_getElem? ht)]; exact Nat.zero_le _

namespace Inv

theorem tail_exists (h : Inv c s) (r : Fin c.n) :
    ∃ t, s.sender.tailList[(r : Nat)]? = some t ∧ s.sender.getMinTailIndex ≤ t := by
  have hlt : (r : Nat) < s.sender.tailList.length := by rw [h.count]; exact r.isLt
  exact ⟨_, List.getElem?_eq_getElem hlt, McastSendQueue.getMinTailIndex_le (List.getElem_mem hlt)⟩

/-- The sender is never more than a 16-bit window ahead of any receiver. -/
theorem ahead (h : Inv c s) (r : Fin c.n) : s.sender.ring.head ≤ (s.receivers r).queue.tail + 2 ^ 16 := by
  obtain ⟨t, ht, hle⟩ := h.tail_exists r
  have := h.sender.len16
  have := h.tails r t ht
  omega

/-- What the sender does in an event, as long as its `head_` only grows. -/
theorem sender_step (h : Inv c s) {q : McastSendQueue} (more : List Buffer)
    (hq : SenderInv (fragmentSizeOf c.mtuSize) (s.sent ++ more) q.getMinTailIndex q.ring)
    (hl : HasLengths c.lens (s.sent ++ more)) (hh : s.sender.ring.head ≤ q.ring.head)
    (hc : q.tailList.length = c.n)
    (ht : ∀ (r : Fin c.n) (t : Nat), q.tailList[(r : Nat)]? = some t → t ≤ (s.receivers r).queue.tail) :
    Inv c { s with sender := q, sent := s.sent ++ more } := by
  refine ⟨hq, fun r => ⟨(h.replicas r).receiver.mono hh, (h.replicas r).postedLens⟩, hl, fun m hm => ?_, h.acks, hc, ht⟩
  rw [fragments_append]
  exact (h.data m hm).mono hh

/-- What one receiver does in an event, as long as its `tail_` only grows. -/
theorem receiver_step (h : Inv c s) {r : Fin c.n} {x : Receiver}
    (hx : ReplicaInv c s.sent s.sender.ring.head r x) (ht : (s.receivers r).queue.tail ≤ x.queue.tail) :
    Inv c { s with receivers := Function.update s.receivers r x } := by
  have hmono : ∀ k, (s.receivers k).queue.tail ≤ (Function.update s.receivers r x k).queue.tail := by
    intro k
    by_cases hk : k = r
    · subst hk; rw [Function.update_self]; exact ht
    · rw [Function.update_of_ne hk]
  refine ⟨h.sender, fun k => ?_, h.sentLens, h.data, fun p hp => ?_, h.count, fun k t hk => ?_⟩
  · by_cases hk : k = r
    · subst hk; simp only [Function.update_self]; exact hx
    · simp only [Function.update_of_ne hk]; exact h.replicas k
  · exact ⟨(h.acks p hp).1.trans (hmono p.1), (h.acks p hp).2⟩
  · exact (h.tails k t hk).trans (hmono k)

/-- An ACK of a receiver moves its own tail to the value it stands for. -/
theorem deliverAck (h : Inv c s) {r : Fin c.n} {a : AckMsg} (ha : (r, a) ∈ s.acks)
    (hage : s.sender.ring.head < a.value + 2 ^ 24) (pool : PacketBufferPool) :
    Inv c { s with sender := (s.sender.markCompleted r a.sn pool).2.1 } := by
  obtain ⟨hv, hsn⟩ := h.acks _ ha
  obtain ⟨t, ht, hmin⟩ := h.tail_exists r
  have htr := h.tails r t ht
  have hrh := (h.replicas r).receiver.tail_le
  have h16 := h.sender.len16
  have hlt := (List.getElem?_eq_some_iff.1 ht).1
  have htail : ackTail (s.sender.tailList.getD r 0) s.sender.ring.head a.sn = max t a.value := by
    rw [hsn, List.getD_eq_getElem?_getD, ht]
    exact SenderInv.ackTail_eq (htr.trans hrh) (show _ ≤ t + 2 ^ 16 by omega) (hv.trans hrh) hage
  -- the queue the fill loop starts from
  let q : McastSendQueue := { s.sender with tailList := s.sender.tailList.set r (max t a.value) }
  have hq : (s.sender.markCompleted r a.sn pool).2.1 = (q.fillPrimaryQueue pool).2.1 := by
    unfold McastSendQueue.markCompleted
    rw [if_neg (by omega)]
    simp only [Int.toNat_natCast, htail]
    rfl
  have hbehind : ∀ u ∈ s.sender.tailList, u ≤ s.sender.ring.head := by
    intro u hu
    obtain ⟨k, hk, rfl⟩ := List.getElem_of_mem hu
    have hkn : k < c.n := h.count ▸ hk
    exact (h.tails ⟨k, hkn⟩ _ (List.getElem?_eq_getElem hk)).trans (h.replicas ⟨k, hkn⟩).receiver.tail_le
  have hup : s.sender.tailList.getD r 0 ≤ max t a.value := by
    rw [List.getD_eq_getElem?_getD, ht]
    exact le_max_left _ _
  obtain ⟨-, -, h1, h2⟩ := McastSendQueue.raise_tail hlt hbehind hup (max_le (htr.trans hrh) (hv.trans hrh))
  obtain ⟨hinv, htl, hh⟩ := SenderInv.mcastFillPrimaryQueue (q := q) (h.sender.raise h1 h2) pool
  have := h.sender_step (q := (q.fillPrimaryQueue pool).2.1) [] (by simpa using hinv)
    (by simpa using h.sentLens) hh (by rw [htl]; simp [q, h.count]) ?_
  · rw [hq]; simpa using this
  · intro k u hu
    rw [htl] at hu
    simp only [q, List.getElem?_set] at hu
    split at hu
    · rename_i hk
      obtain rfl : r = k := Fin.ext hk
      cases hu
      exact max_le htr hv
    · exact h.tails k u hu

end Inv

/-- Every event keeps the invariant. -/
theorem step_inv (h : Inv c s) {e : Event c.n} (hok : ok c s e) (hs : step c s e = some s') : Inv c s' := by
  cases e with
  | send bufs pool =>
    obtain ⟨⟨ret, sn, q, pool'⟩, hp, rfl⟩ := Option.map_eq_some_iff.1 hs
    obtain ⟨hq, ht, hh⟩ := h.sender.mcastSendQueue_push hok.1 hp
    exact h.sender_step bufs hq hok.2 hh (by rw [ht]; exact h.count) (by rw [ht]; exact h.tails)
  | receive r bufs =>
    obtain ⟨x, hp, rfl⟩ := Option.map_eq_some_iff.1 hs
    obtain ⟨hx, ht, hpost⟩ := (h.replicas r).receiver.post hp
    exact h.receiver_step ⟨hx, by rw [hpost]; exact hok⟩ ht.ge
  | setSendWnd w =>
    cases hs
    exact ⟨h.sender.setWndSize hok, h.replicas, h.sentLens, h.data, h.acks, h.count, h.tails⟩
  | setRecvWnd r w =>
    cases hs
    exact h.receiver_step ⟨(h.replicas r).receiver.setWndSize hok, (h.replicas r).postedLens⟩ (le_refl _)
  | transmit i ts =>
    obtain ⟨⟨ring, m⟩, hp, rfl⟩ := Option.map_eq_some_iff.1 hs
    obtain ⟨hr, hhead, hm⟩ := h.sender.transmit hok.1 hok.2 hp
    refine ⟨hr, ?_, h.sentLens, fun m' hm' => ?_, h.acks, h.count, h.tails⟩
    · simp only [hhead]; exact h.replicas
    · simp only [hhead]
      rcases List.mem_append.1 hm' with hm' | hm'
      · exact h.data m' hm'
      · rw [List.mem_singleton.1 hm']; exact hm
  | deliverData r m =>
    obtain ⟨x, hp, rfl⟩ := Option.map_eq_some_iff.1 hs
    have hr := h.replicas r
    obtain ⟨_, hsent, hposted⟩ := h.sentLens.common hr.postedLens
    obtain ⟨hx, ht, hpost⟩ := hr.receiver.deliver (h.ahead r) hsent hposted (h.data m hok.1) hok.2 hp
    exact h.receiver_step ⟨hx, by rw [hpost]; exact hr.postedLens⟩ ht
  | emitAck r =>
    cases hs
    refine ⟨h.sender, h.replicas, h.sentLens, h.data, fun a ha => ?_, h.count, h.tails⟩
    rcases List.mem_append.1 ha with ha | ha
    · exact h.acks a ha
    · rw [List.mem_singleton.1 ha]; exact ⟨le_refl _, rfl⟩
  | deliverAck r a pool =>
    cases hs
    exact h.deliverAck hok.1 hok.2 pool

/-! ## Delivery -/

/-- While some replica has not acknowledged index `i`, its slot still carries it, and no later index
was given the slot. -/
theorem Inv.slot_kept (h : Inv c s) {i : Nat} (hi : i < s.sender.ring.head) {t : Nat} (ht : t ∈ s.sender.tailList)
    (hti : t ≤ i) :
    Carries (fragments (fragmentSizeOf c.mtuSize) s.sent) i (s.sender.ring.getMutableEntry i) ∧
      ∀ j, i < j → j < s.sender.ring.head → j % s.sender.ring.queueCapacity ≠ i % s.sender.ring.queueCapacity := by
  have hmin := (McastSendQueue.getMinTailIndex_le ht).trans hti
  refine ⟨h.sender.slots i hmin hi, fun j hij hj hmod => ?_⟩
  have hcap := h.sender.lenCap
  have := Serial.eq_of_mod_eq hmod (by omega) (by omega)
  omega

/-- Multicast delivery, for every run and every replica. -/
theorem delivery_to_all {s0 : State c.n} {es : List (Event c.n)} (h0 : Start c s0)
    (hrun : Runs.Run (step c) (ok c) s0 es s) :
    (∀ r : Fin c.n,
      (∃ t, s.sender.tailList[(r : Nat)]? = some t ∧ t ≤ (s.receivers r).queue.tail) ∧
      (s.receivers r).queue.tail ≤ s.sender.ring.head ∧
      (∀ i < (s.receivers r).queue.tail, ∃ mv, (s.receivers r).writes.filter (fun w => w.1 = i) = [(i, mv)] ∧
        Delivers (fragments (fragmentSizeOf c.mtuSize) s.sent)
          (fragments (fragmentSizeOf c.mtuSize) (s.receivers r).posted) c.smem i mv) ∧
      (NoOverlap (fragments (fragmentSizeOf c.mtuSize) (s.receivers r).posted) →
        ∀ i < (s.receivers r).queue.tail, ∀ src dst,
        (fragments (fragmentSizeOf c.mtuSize) s.sent)[i]? = some src →
        (fragments (fragmentSizeOf c.mtuSize) (s.receivers r).posted)[i]? = some dst →
        bytesAt (s.receivers r).mem dst.addr dst.length = bytesAt c.smem src.addr src.length)) ∧
    (∀ i < s.sender.ring.head, (∃ t ∈ s.sender.tailList, t ≤ i) →
      Carries (fragments (fragmentSizeOf c.mtuSize) s.sent) i (s.sender.ring.getMutableEntry i) ∧
      ∀ j, i < j → j < s.sender.ring.head →
        j % s.sender.ring.queueCapacity ≠ i % s.sender.ring.queueCapacity) := by
  have h : Inv c s := hrun.invariant (start_inv h0) fun _ _ _ hi hok hst => step_inv hi hok hst
  refine ⟨fun r => ⟨?_, (h.replicas r).receiver.tail_le, fun i hi => (h.replicas r).receiver.delivered hi,
    fun hdis i hi src dst hs hd => (h.replicas r).receiver.memory hdis hi hd hs⟩, ?_⟩
  · obtain ⟨t, ht, -⟩ := h.tail_exists r
    exact ⟨t, ht, h.tails r t ht⟩
  · rintro i hi ⟨t, ht, hti⟩
    exact h.slot_kept hi ht hti

/-- Two replicas with different capacities; fragments of two bytes. -/
def sample : Config where
  n := 2
  mtuSize := 50
  sendCapacity := 4
  recvCapacity := fun r => 4 * 2 ^ (r : Nat)
  sendWnd := 2
  recvWnd := fun _ => 2
  session := 0
  raw := ⟨0, 0, 0, 0, 0, false, false, false, none, 0, 0⟩
  lens := fun _ => 3
  smem := fun a => UInt8.ofNat a
  mem0 := fun _ _ => 0
  n_pos := by decide
  fragment_pos := by decide
  sendWnd_lt := by decide
  recvWnd_lt := by decide
  recvCapacity_pow := fun r => ⟨2 + r, by omega, by rw [pow_add]; rfl⟩

def sampleStart : State sample.n :=
  ⟨(McastSendQueue.construct sample.raw 50 4 2 0 2).get (by decide), [],
    fun r => ⟨(startQueue sample r).get (by revert r; decide), [], sample.mem0 r, []⟩, [], []⟩

/-- The packets of the buffer of three bytes at 100. -/
def samplePacket : Nat → DataMsg
  | 0 => ⟨0, ⟨0, 0, 2, 0, 7, false, [100, 101]⟩⟩
  | i => ⟨i, ⟨0, 0, 2, i, 7, false, [102]⟩⟩

/-- The first replica has everything and says so, the second lost the second packet. -/
def sampleRun : List (Event sample.n) :=
  [.send [⟨100, 3⟩] ⟨[0, 1]⟩, .receive (0 : Fin 2) [⟨200, 3⟩], .receive (1 : Fin 2) [⟨300, 3⟩], .transmit 0 7,
   .transmit 1 7, .deliverData (0 : Fin 2) (samplePacket 1), .deliverData (0 : Fin 2) (samplePacket 0),
   .deliverData (1 : Fin 2) (samplePacket 0), .emitAck (0 : Fin 2), .emitAck (1 : Fin 2),
   .deliverAck (0 : Fin 2) ⟨2, 2⟩ ⟨[]⟩, .deliverAck (1 : Fin 2) ⟨1, 1⟩ ⟨[]⟩]

theorem delivery_to_all_sample : ∃ s, Runs.Run (step sample) (ok sample) sampleStart sampleRun s ∧
    s.sender.tailList = [2, 1] ∧
    Carries (fragments 2 s.sent) 1 (s.sender.ring.getMutableEntry 1) := by
  obtain ⟨s, hrun, ht⟩ := Runs.exists_run_of_exec (step sample) (ok sample) sampleStart sampleRun
    (fun s => s.sender.tailList = [2, 1] ∧ s.sender.ring.head = 2) (by decide +kernel)
  have h0 : Start sample sampleStart := ⟨rfl, rfl, fun r => ⟨by simp [sampleStart], rfl, rfl, rfl⟩, rfl, rfl⟩
  obtain ⟨h1, h2⟩ := of_decide_eq_true ht
  refine ⟨s, hrun, h1, ((delivery_to_all h0 hrun).2 1 (by omega) ⟨1, by simp [h1], le_refl _⟩).1⟩

end RapidTransfer.Multicast
