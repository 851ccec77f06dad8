/-
End-to-end unicast delivery: one send queue, one receive queue and a network between them that may
lose, duplicate, delay and reorder. Loss is a message that is never delivered, duplication one that
is delivered again. Numbers on the wire have 24 bits, so a message must not be delivered too late;
`ok` states how late, and the other things the two sides agree on.

`Inv` is the joint invariant of both queues and of every message in flight, `step_inv` shows that
each event keeps it, and `delivery_in_order` reads the guarantees off: `tail_` of the sender, `tail_` of the
receiver and `head_` of the sender are ordered, and every index below the receiver's `tail_` was
written once, with the bytes of the sender's fragment.
-/
import RapidTransfer.Delivery.Network
import RapidTransfer.Lib.Runs

namespace RapidTransfer.Unicast

/-! ## The system -/

/-- The two queues' parameters and the sender's memory. -/
structure Config where
  mtuSize : Nat
  sendCapacity : Nat
  recvCapacity : Nat
  sendWnd : Nat
  recvWnd : Nat
  session : Nat
  raw : PacketHandle
  -- the lengths of the buffers that both sides go through, of which there is no last one
  lens : Nat → Nat
  smem : Nat → UInt8
  mem0 : Nat → UInt8
  fragment_pos : 0 < fragmentSizeOf mtuSize
  sendWnd_lt : sendWnd < sendCapacity
  recvWnd_lt : recvWnd < recvCapacity
  recvCapacity_pow : ∃ k ≤ 24, recvCapacity = 2 ^ k

structure State where
  sender : SendQueue
  sent : List Buffer
  receiver : Receiver
  data : List DataMsg
  acks : List AckMsg

inductive Event
  | send (bufs : List Buffer) (pool : PacketBufferPool)
  | receive (bufs : List Buffer)
  | setSendWnd (w : Nat)
  | setRecvWnd (w : Nat)
  | transmit (index ts : Nat)
  | deliverData (m : DataMsg)
  | emitAck
  | deliverAck (a : AckMsg) (pool : PacketBufferPool)

def start (c : Config) : Option State :=
  match SendQueue.construct c.raw c.mtuSize c.sendCapacity c.sendWnd c.session,
      ReceiveQueue.construct c.mtuSize c.recvCapacity c.recvWnd c.session with
  | some q, some r => some ⟨q, [], ⟨r, [], c.mem0, []⟩, [], []⟩
  | _, _ => none

/-- One event. The pool of `send` and `deliverAck` is what the process has left at that moment. -/
def step (c : Config) (s : State) : Event → Option State
  | .send bufs pool => (s.sender.push bufs pool).map fun r => { s with sender := r.2.2.1, sent := s.sent ++ bufs }
  | .receive bufs => (s.receiver.post bufs).map fun r => { s with receiver := r }
  | .setSendWnd w => some { s with sender := s.sender.setWndSize w }
  | .setRecvWnd w => some { s with receiver := s.receiver.setWndSize w }
  | .transmit i ts => (s.sender.ring.transmit c.smem i ts).map fun r =>
      { s with sender := { s.sender with ring := r.1 }, data := s.data ++ [r.2] }
  | .deliverData m => (s.receiver.deliver m).map fun r => { s with receiver := r }
  | .emitAck => some { s with acks := s.acks ++ [s.receiver.ack] }
  | .deliverAck a pool => some { s with sender := (s.sender.markCompleted a.sn pool).2.1 }

/-- What is assumed of an event: buffer lengths from the common sequence, non-null addresses at the
sender, windows below the capacity, live indices, and messages that were sent and are not too old. -/
def ok (c : Config) (s : State) : Event → Prop
  | .send bufs _ => (∀ b ∈ bufs, b.addr ≠ 0) ∧ HasLengths c.lens (s.sent ++ bufs)
  | .receive bufs => HasLengths c.lens (s.receiver.posted ++ bufs)
  | .setSendWnd w => (s.sender.ring.setWndSize w).wndSize < s.sender.ring.queueCapacity
  | .setRecvWnd w => (s.receiver.queue.setWndSize w).wndSize < s.receiver.queue.queueCapacity
  | .transmit i _ => s.sender.tail ≤ i ∧ i < s.sender.ring.head
  | .deliverData m => m ∈ s.data ∧ s.receiver.queue.tail + s.receiver.queue.wndSize ≤ m.index + 2 ^ 24
  | .emitAck => True
  | .deliverAck a _ => a ∈ s.acks ∧ s.sender.ring.head < a.value + 2 ^ 24

instance (c : Config) (s : State) : ∀ e, Decidable (ok c s e)
  | .send _ _ => inferInstanceAs (Decidable (_ ∧ _))
  | .receive _ => inferInstanceAs (Decidable (HasLengths _ _))
  | .setSendWnd _ => inferInstanceAs (Decidable (_ < _))
  | .setRecvWnd _ => inferInstanceAs (Decidable (_ < _))
  | .transmit _ _ => inferInstanceAs (Decidable (_ ∧ _))
  | .deliverData _ => inferInstanceAs (Decidable (_ ∧ _))
  | .emitAck => inferInstanceAs (Decidable True)
  | .deliverAck _ _ => inferInstanceAs (Decidable (_ ∧ _))

/-! ## The joint invariant -/

structure Inv (c : Config) (s : State) : Prop where
  sender : SenderInv (fragmentSizeOf c.mtuSize) s.sent s.sender.tail s.sender.ring
  receiver : ReceiverOK (fragmentSizeOf c.mtuSize) s.sent c.smem c.mem0 s.sender.ring.head s.receiver
  sentLens : HasLengths c.lens s.sent
  postedLens : HasLengths c.lens s.receiver.posted
  data : ∀ m ∈ s.data, Sent (fragments (fragmentSizeOf c.mtuSize) s.sent) c.smem s.sender.ring.head m
  acks : ∀ a ∈ s.acks, a.value ≤ s.receiver.queue.tail ∧ a.sn = shortSN a.value
  tail : s.sender.tail ≤ s.receiver.queue.tail

variable {c : Config} {s s' : State}

theorem start_inv (h : start c = some s) : Inv c s := by
  unfold start at h
  split at h
  · rename_i q r hq hr
    cases h
    obtain ⟨ring, hring, rfl⟩ := Option.map_eq_some_iff.1 hq
    obtain ⟨k, hk, hcap⟩ := c.recvCapacity_pow
    have hs := SenderInv.construct hring c.fragment_pos c.sendWnd_lt
    have hrecv := ReceiverInv.construct hr c.fragment_pos c.recvWnd_lt (hcap ▸ Nat.pow_dvd_pow 2 hk)
    refine ⟨hs, ⟨?_, by simp, by simp, by simp, rfl⟩, .nil _, .nil _, by simp, by simp, Nat.zero_le _⟩
    simpa using hrecv
  · cases h

/-- The sender is never more than a 16-bit window ahead of the receiver. -/
theorem Inv.ahead (h : Inv c s) : s.sender.ring.head ≤ s.receiver.queue.tail + 2 ^ 16 := by
  have := h.sender.len16
  have := h.tail
  omega

/-- What the sender does in an event leaves the rest of the invariant alone, as long as its
`head_` and `tail_` only grow and `tail_` stays behind the receiver's. -/
theorem Inv.sender_step (h : Inv c s) {q : SendQueue} (more : List Buffer)
    (hq : SenderInv (fragmentSizeOf c.mtuSize) (s.sent ++ more) q.tail q.ring)
    (hl : HasLengths c.lens (s.sent ++ more)) (hh : s.sender.ring.head ≤ q.ring.head)
    (ht : q.tail ≤ s.receiver.queue.tail) : Inv c { s with sender := q, sent := s.sent ++ more } := by
  refine ⟨hq, h.receiver.mono hh, hl, h.postedLens, fun m hm => ?_, h.acks, ht⟩
  rw [fragments_append]
  exact (h.data m hm).mono hh

/-- Every event keeps the invariant. -/
theorem step_inv (h : Inv c s) {e : Event} (hok : ok c s e) (hs : step c s e = some s') : Inv c s' := by
  cases e with
  | send bufs pool =>
    obtain ⟨⟨ret, sn, q, pool'⟩, hp, rfl⟩ := Option.map_eq_some_iff.1 hs
    obtain ⟨hq, ht, hh⟩ := h.sender.sendQueue_push hok.1 hp
    exact h.sender_step bufs hq hok.2 hh (ht ▸ h.tail)
  | receive bufs =>
    obtain ⟨r, hp, rfl⟩ := Option.map_eq_some_iff.1 hs
    obtain ⟨hr, ht, hpost⟩ := h.receiver.post hp
    refine ⟨h.sender, hr, h.sentLens, ?_, h.data, ?_, ?_⟩
    · simp only [hpost]; exact hok
    · simp only [ht]; exact h.acks
    · simp only [ht]; exact h.tail
  | setSendWnd w =>
    cases hs
    exact ⟨h.sender.setWndSize hok, h.receiver, h.sentLens, h.postedLens, h.data, h.acks, h.tail⟩
  | setRecvWnd w =>
    cases hs
    exact ⟨h.sender, h.receiver.setWndSize hok, h.sentLens, h.postedLens, h.data, h.acks, h.tail⟩
  | transmit i ts =>
    obtain ⟨⟨r, m⟩, hp, rfl⟩ := Option.map_eq_some_iff.1 hs
    obtain ⟨hr, hhead, hm⟩ := h.sender.transmit hok.1 hok.2 hp
    refine ⟨hr, ?_, h.sentLens, h.postedLens, fun m' hm' => ?_, h.acks, h.tail⟩
    · simp only [hhead]; exact h.receiver
    · simp only [hhead]
      rcases List.mem_append.1 hm' with hm' | hm'
      · exact h.data m' hm'
      · rw [List.mem_singleton.1 hm']; exact hm
  | deliverData m =>
    obtain ⟨r, hp, rfl⟩ := Option.map_eq_some_iff.1 hs
    obtain ⟨_, hsent, hposted⟩ := h.sentLens.common h.postedLens
    obtain ⟨hr, ht, hpost⟩ := h.receiver.deliver h.ahead hsent hposted (h.data m hok.1) hok.2 hp
    refine ⟨h.sender, hr, h.sentLens, ?_, h.data, fun a ha => ?_, h.tail.trans ht⟩
    · simp only [hpost]; exact h.postedLens
    · exact ⟨(h.acks a ha).1.trans ht, (h.acks a ha).2⟩
  | emitAck =>
    cases hs
    refine ⟨h.sender, h.receiver, h.sentLens, h.postedLens, h.data, fun a ha => ?_, h.tail⟩
    rcases List.mem_append.1 ha with ha | ha
    · exact h.acks a ha
    · rw [List.mem_singleton.1 ha]; exact ⟨le_refl _, rfl⟩
  | deliverAck a pool =>
    cases hs
    obtain ⟨hv, hsn⟩ := h.acks a hok.1
    have hle := hv.trans h.receiver.tail_le
    obtain ⟨hq, ht, hh⟩ := h.sender.sendQueue_markCompleted hle hok.2 pool
    rw [← hsn] at hq ht hh
    have := h.sender_step (q := (s.sender.markCompleted a.sn pool).2.1) [] (by simpa using hq)
      (by simpa using h.sentLens) hh (by rw [ht]; exact max_le h.tail hv)
    simpa using this

/-! ## Delivery -/

/-- Unicast delivery, for every run. -/
theorem delivery_in_order {s0 : State} {es : List Event} (h0 : start c = some s0)
    (hrun : Runs.Run (step c) (ok c) s0 es s) :
    s.sender.tail ≤ s.receiver.queue.tail ∧ s.receiver.queue.tail ≤ s.sender.ring.head ∧
    (∀ i < s.receiver.queue.tail, ∃ mv, s.receiver.writes.filter (fun w => w.1 = i) = [(i, mv)] ∧
      Delivers (fragments (fragmentSizeOf c.mtuSize) s.sent) (fragments (fragmentSizeOf c.mtuSize) s.receiver.posted)
        c.smem i mv) ∧
    (NoOverlap (fragments (fragmentSizeOf c.mtuSize) s.receiver.posted) → ∀ i < s.receiver.queue.tail, ∀ src dst,
      (fragments (fragmentSizeOf c.mtuSize) s.sent)[i]? = some src →
      (fragments (fragmentSizeOf c.mtuSize) s.receiver.posted)[i]? = some dst →
      bytesAt s.receiver.mem dst.addr dst.length = bytesAt c.smem src.addr src.length) ∧
    ((∀ b ∈ fragments (fragmentSizeOf c.mtuSize) s.sent, b.length < 2 ^ 32) → ∀ m, ok c s (.deliverData m) →
      step c s (.deliverData m) ≠ none) := by
  have h : Inv c s := hrun.invariant (start_inv h0) fun _ _ _ hi hok hst => step_inv hi hok hst
  refine ⟨h.tail, h.receiver.tail_le, fun i hi => h.receiver.delivered hi,
    fun hdis i hi src dst hs hd => h.receiver.memory hdis hi hd hs, fun h32 m hok => ?_⟩
  obtain ⟨_, hsent, hposted⟩ := h.sentLens.common h.postedLens
  have := h.receiver.deliver_ne_none h.ahead hsent hposted (h.data m hok.1) hok.2 h32
  simpa [step] using this

theorem sample_fragment_pos : 0 < fragmentSizeOf 50 := by decide

theorem sample_wnd_lt : 2 < 4 := by decide

/-- Fragments of two bytes, windows of two. -/
def sample : Config where
  mtuSize := 50
  sendCapacity := 4
  recvCapacity := 4
  sendWnd := 2
  recvWnd := 2
  session := 0
  raw := ⟨0, 0, 0, 0, 0, false, false, false, none, 0, 0⟩
  lens := fun _ => 3
  smem := fun a => UInt8.ofNat a
  mem0 := fun _ => 0
  fragment_pos := sample_fragment_pos
  sendWnd_lt := sample_wnd_lt
  recvWnd_lt := sample_wnd_lt
  recvCapacity_pow := ⟨2, by decide, rfl⟩

def sampleStart : State := (start sample).get (by decide)

/-- The packets of the buffer of three bytes at 100. -/
def samplePacket : Nat → DataMsg
  | 0 => ⟨0, ⟨0, 0, 2, 0, 7, false, [100, 101]⟩⟩
  | i => ⟨i, ⟨0, 0, 2, i, 7, false, [102]⟩⟩

/-- The second packet overtakes the first, which arrives twice; one ACK comes back. -/
def sampleRun : List Event :=
  [.send [⟨100, 3⟩] ⟨[0, 1]⟩, .receive [⟨200, 3⟩], .transmit 0 7, .transmit 1 7,
   .deliverData (samplePacket 1), .deliverData (samplePacket 0), .deliverData (samplePacket 0), .emitAck,
   .deliverAck ⟨2, 2⟩ ⟨[]⟩]

theorem delivery_in_order_sample : ∃ s, Runs.Run (step sample) (ok sample) sampleStart sampleRun s ∧
    s.sender.tail = 2 ∧ bytesAt s.receiver.mem 200 3 = [100, 101, 102] ∧
    s.receiver.queue.tail ≤ s.sender.ring.head := by
  obtain ⟨s, hrun, ht⟩ := Runs.exists_run_of_exec (step sample) (ok sample) sampleStart sampleRun
    (fun s => s.sender.tail = 2 ∧ bytesAt s.receiver.mem 200 3 = [100, 101, 102])
    (by decide +kernel)
  have h0 : start sample = some sampleStart := by simp [sampleStart]
  obtain ⟨h1, h2⟩ := of_decide_eq_true ht
  exact ⟨s, hrun, h1, h2, (delivery_in_order h0 hrun).2.1⟩

end RapidTransfer.Unicast
