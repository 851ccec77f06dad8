/-
That a transfer gets on. The network may lose, duplicate, delay and reorder, but not so that a fragment that stays in
flight never arrives, or that the sender never hears of what is received (`Fair`); then every fragment that is pushed at
the sender and posted at the receiver is acknowledged some time, whatever else is pushed and posted meanwhile
(`eventually_acknowledged`, for one receiver and for several).

The receiver is always waiting for the index of its `tail_`: it has not got it, and has requested it if it can
(`Receiver.Waiting`). The sender always has something in flight if anything waits, since with nothing in flight its room
test lets a fragment through whatever the window, if there is a packet for it. So there is a next thing to arrive until
everything is acknowledged.
-/
import RapidTransfer.Lib.Fair
import RapidTransfer.Queue.Supply
import RapidTransfer.Queue.Addressing
import RapidTransfer.Delivery.Unicast
import RapidTransfer.Delivery.Multicast

namespace RapidTransfer

/-! ## The receiver -/

namespace ReceiveQueue

/-- The advance loop stops at `head_` or at an outstanding request. -/
theorem advance_stops : ∀ (n : Nat) (q : ReceiveQueue), q.tail ≤ q.head → q.head ≤ q.tail + n →
    (advance n q).tail = (advance n q).head ∨
      ((advance n q).requests ((advance n q).tail % (advance n q).queueCapacity)).inflight = true
  | 0, q, h1, h2 => .inl (by simp only [advance]; omega)
  | n + 1, q, h1, h2 => by
    unfold advance
    split
    · rename_i heq; exact .inl heq
    · rename_i hne
      split
      · rename_i hf; exact .inr hf
      · exact advance_stops n { q with tail := q.tail + 1 } (by simp only; omega) (by simp only; omega)

end ReceiveQueue

namespace ReceiverInv

variable {f : Nat} {bufs : List Buffer} {got : Nat → Prop} {q : ReceiveQueue}

/-- A queue that is filled up has requested what it waits for. -/
theorem requested (h : ReceiverInv f bufs got q) (hfull : q.hasRoom = false)
    (hlt : q.tail < (fragments f bufs).length) : q.tail < q.head := by
  by_contra hge
  have htail := h.tailLe
  have hrem : q.secondaryQueue.hasRemainingFragment = true := by
    rw [SecondaryQueue.hasRemainingFragment_iff h.wf.size, h.pend, ne_eq, List.drop_eq_nil_iff]
    omega
  have hroom : q.hasRoom = true := by
    unfold ReceiveQueue.hasRoom
    rw [hrem, h.sub64_eq]
    simp only [Bool.true_and, decide_eq_true_eq]
    omega
  rw [hroom] at hfull
  cases hfull

theorem filled (h : ReceiverInv f bufs got q) : q.fillPrimaryQueue.hasRoom = false :=
  ReceiveQueue.hasRoom_fill (q.wndSize + 1) q h.wnd16 (by omega)

/-- A settled queue has not got the index of its `tail_`, and has requested it if it is posted. -/
theorem settle_waits (h : ReceiverInv f bufs got q) :
    ¬got q.settle.tail ∧ (q.settle.tail < (fragments f bufs).length → q.settle.tail < q.settle.head) := by
  have hadv : ReceiverInv f bufs got (ReceiveQueue.advance (sub64 q.head q.tail) q) :=
    ReceiveQueue.advance_rule (P := ReceiverInv f bufs got) (fun _ hq hne hd => hq.step hne hd) _ q h
  have hstop := ReceiveQueue.advance_stops (sub64 q.head q.tail) q h.tailLe (by rw [h.sub64_eq]; omega)
  constructor
  · rw [ReceiveQueue.settle, ReceiveQueue.fillPrimaryQueue, ReceiveQueue.fill_tail]
    intro hgot
    have hlt := hadv.high _ hgot
    rcases hstop with heq | hflight
    · omega
    · rw [(hadv.slots _ le_rfl hlt).2.2 hgot] at hflight
      cases hflight
  · exact h.settle.1.requested hadv.filled

end ReceiverInv

/-- The receiver waits for the index of `tail_`: it has not got it, and has requested it if it is posted. -/
structure Receiver.Waiting (f : Nat) (r : Receiver) : Prop where
  missing : r.queue.tail ∉ r.writes.map Prod.fst
  requested : r.queue.tail < (fragments f r.posted).length → r.queue.tail < r.queue.head

namespace ReceiverOK

variable {f bound : Nat} {sent : List Buffer} {smem mem0 : Nat → UInt8} {r r' : Receiver}

theorem post_waits (h : ReceiverOK f sent smem mem0 bound r) (hw : r.Waiting f) {bufs : List Buffer}
    (hp : r.post bufs = some r') : r'.Waiting f := by
  have hok := (h.post hp).1
  unfold Receiver.post at hp
  split at hp
  · cases hp
  · rename_i ret sn q hq
    cases hp
    constructor
    · show q.tail ∉ _
      rw [ReceiveQueue.push_tail hq]
      exact hw.missing
    · obtain ⟨ids, sq, -, -, -, rfl⟩ := ReceiveQueue.push_some hq
      refine hok.inv.requested ?_
      exact ReceiveQueue.hasRoom_fill _ _ h.inv.wnd16 (by dsimp only; omega)

theorem deliver_waits (h : ReceiverOK f sent smem mem0 bound r) (hw : r.Waiting f) (hb : bound ≤ r.queue.tail + 2 ^ 16)
    {m : DataMsg} (hs : Sent (fragments f sent) smem bound m)
    (hage : r.queue.tail + r.queue.wndSize ≤ m.index + 2 ^ 24) (hd : r.deliver m = some r') : r'.Waiting f := by
  unfold Receiver.deliver at hd
  split at hd
  · cases hd
  · rename_i q hm
    cases hd
    rcases ReceiveQueue.markCompleted_cases hm with ⟨-, rfl, -⟩ | ⟨-, -, rfl, -⟩ | ⟨-, -, -, -, hmv⟩
    · exact hw
    · exact ⟨h.inv.settle_waits.1, h.inv.settle_waits.2⟩
    · cases hmv
  · rename_i q mv hm
    cases hd
    rcases ReceiveQueue.markCompleted_cases hm with ⟨-, -, hmv⟩ | ⟨-, -, -, hmv⟩ | ⟨hin, hf, -, rfl, -⟩
    · cases hmv
    · cases hmv
    · obtain ⟨i, b, h1, h2, h3, h4, -⟩ := h.inv.designates (by rw [hs.2.1]; exact shortSN_lt _) hin hf
      obtain rfl := index_eq hb hs hage h1 h3 h4
      obtain ⟨hmissing, hrequested⟩ := (h.inv.complete h1 h2 h4).settle_waits
      refine ⟨?_, hrequested⟩
      simpa using hmissing

/-- The packet that a receiver waits for moves `tail_`. -/
theorem deliver_next (h : ReceiverOK f sent smem mem0 bound r) (hw : r.Waiting f) (hwnd : 0 < r.queue.wndSize)
    (hposted : r.queue.tail < (fragments f r.posted).length) (hb : bound ≤ r.queue.tail + 2 ^ 16) {m : DataMsg}
    (hs : Sent (fragments f sent) smem bound m) (hage : r.queue.tail + r.queue.wndSize ≤ m.index + 2 ^ 24)
    (hi : m.index = r.queue.tail) (hd : r.deliver m = some r') : r.queue.tail < r'.queue.tail := by
  have hw' := h.deliver_waits hw hb hs hage hd
  have hhead := hw.requested hposted
  have hsn : m.packet.sn = shortSN r.queue.tail := by rw [hs.2.1, hi]
  have hwnd16 := h.inv.wnd16
  have hin : r.queue.inWindow m.packet.sn = true := by
    rw [ReceiveQueue.inWindow_eq, Serial.inWindow_iff (by omega) (by rw [hsn]; exact shortSN_lt _), hsn]
    exact ⟨r.queue.tail, le_rfl, by omega, rfl⟩
  have hslot : r.queue.requestOf m.packet.sn = r.queue.requests (r.queue.tail % r.queue.queueCapacity) := by
    unfold ReceiveQueue.requestOf shortSN at *
    rw [hsn, Nat.mod_mod_of_dvd _ h.inv.capDvd]
  have hflight : (r.queue.requestOf m.packet.sn).inflight = true := by
    by_contra hno
    rw [hslot, Bool.not_eq_true] at hno
    exact hw.missing ((h.inv.slots _ le_rfl hhead).2.1 hno)
  unfold Receiver.deliver at hd
  split at hd
  · cases hd
  · rename_i q hm
    rcases ReceiveQueue.markCompleted_cases hm with ⟨hout, -⟩ | ⟨-, hidle, -⟩ | ⟨-, -, -, -, hmv⟩
    · rw [hin] at hout; cases hout
    · rw [hflight] at hidle; cases hidle
    · cases hmv
  · rename_i q mv hm
    have hle := ReceiveQueue.tail_le_markCompleted hm
    cases hd
    refine lt_of_le_of_ne hle fun heq => hw'.missing ?_
    show q.tail ∈ _
    rw [← heq, ← hi]
    simp

/-- What is below `tail_` was written. -/
theorem written (h : ReceiverOK f sent smem mem0 bound r) {i : Nat} (hi : i < r.queue.tail) :
    ∃ mv, (i, mv) ∈ r.writes ∧ Delivers (fragments f sent) (fragments f r.posted) smem i mv := by
  obtain ⟨mv, hf, hd⟩ := h.delivered hi
  refine ⟨mv, ?_, hd⟩
  have hmem : (i, mv) ∈ r.writes.filter (fun w => w.1 = i) := by
    rw [hf]
    exact List.mem_singleton_self _
  exact (List.mem_filter.1 hmem).1

end ReceiverOK

/-! ## The sender -/

namespace SenderInv

variable {f tail : Nat} {bufs : List Buffer} {r : SendRing} {pool : PacketBufferPool}

theorem loadable (h : SenderInv f bufs tail r) : r.secondaryQueue.Loadable :=
  ⟨h.wf, fun b hb => addr_ne_zero_of_mem_fragments h.addrs b (List.mem_of_mem_drop (h.pend ▸ hb))⟩

/-- The fill loop leaves something in flight if there is anything to send. -/
theorem fill_ahead (h : SenderInv f bufs tail r) (hpool : pool.freeBuffers ≠ []) (fuel : Nat)
    (hlt : tail < (fragments f bufs).length) : tail < (SendRing.fill tail (fuel + 1) r pool).2.1.head := by
  by_contra hge
  have hne : (SendRing.fill tail (fuel + 1) r pool).2.1.secondaryQueue.pending ≠ [] := by
    rw [(h.fill (fuel + 1) pool).pend, ne_eq, List.drop_eq_nil_iff]
    omega
  exact hge (SendRing.fill_ahead h.loadable h.tailLe (fun _ => .inr hpool) fuel hne)

theorem fillPrimaryQueue_ahead {q : SendQueue} (h : SenderInv f bufs q.tail q.ring) (hpool : pool.freeBuffers ≠ [])
    (hlt : q.tail < (fragments f bufs).length) :
    (q.fillPrimaryQueue pool).2.1.tail < (q.fillPrimaryQueue pool).2.1.ring.head :=
  h.fill_ahead hpool q.ring.wndSize hlt

theorem mcastFillPrimaryQueue_ahead {q : McastSendQueue} (h : SenderInv f bufs q.getMinTailIndex q.ring)
    (hpool : pool.freeBuffers ≠ []) (hlt : q.getMinTailIndex < (fragments f bufs).length) :
    (q.fillPrimaryQueue pool).2.1.getMinTailIndex < (q.fillPrimaryQueue pool).2.1.ring.head :=
  h.fill_ahead hpool q.ring.wndSize hlt

end SenderInv

theorem length_fragments_le {f : Nat} {a b : List Buffer} (h : a <+: b) :
    (fragments f a).length ≤ (fragments f b).length := by
  obtain ⟨more, rfl⟩ := h
  rw [fragments_append, List.length_append]
  omega

end RapidTransfer

/-! ## One receiver -/

namespace RapidTransfer.Unicast

variable {c : Config} {s s' : State} {e : Event}

/-- There is a packet for the sender whenever it fills its queue. -/
def Supplied : Event → Prop
  | .send _ pool => pool.freeBuffers ≠ []
  | .deliverAck _ pool => pool.freeBuffers ≠ []
  | _ => True

instance : ∀ e, Decidable (Supplied e)
  | .send _ _ => inferInstanceAs (Decidable (_ ≠ _))
  | .deliverAck _ _ => inferInstanceAs (Decidable (_ ≠ _))
  | .receive _ => inferInstanceAs (Decidable True)
  | .setSendWnd _ => inferInstanceAs (Decidable True)
  | .setRecvWnd _ => inferInstanceAs (Decidable True)
  | .transmit _ _ => inferInstanceAs (Decidable True)
  | .deliverData _ => inferInstanceAs (Decidable True)
  | .emitAck => inferInstanceAs (Decidable True)

/-- The fragments pushed so far, and those posted so far. -/
def sentCount (c : Config) (s : State) : Nat := (fragments (fragmentSizeOf c.mtuSize) s.sent).length
def postedCount (c : Config) (s : State) : Nat := (fragments (fragmentSizeOf c.mtuSize) s.receiver.posted).length

/-- Neither side is stuck. -/
structure Live (c : Config) (s : State) : Prop where
  inv : Inv c s
  waiting : s.receiver.Waiting (fragmentSizeOf c.mtuSize)
  ahead : s.sender.tail < sentCount c s → s.sender.tail < s.sender.ring.head

/-- Nothing is taken back. -/
structure Grows (s s' : State) : Prop where
  tail : s.sender.tail ≤ s'.sender.tail
  head : s.sender.ring.head ≤ s'.sender.ring.head
  received : s.receiver.queue.tail ≤ s'.receiver.queue.tail
  sent : s.sent <+: s'.sent
  posted : s.receiver.posted <+: s'.receiver.posted

theorem start_live (h : start c = some s) : Live c s := by
  have hinv := start_inv h
  unfold start at h
  split at h
  · rename_i q r hq hr
    cases h
    refine ⟨hinv, ⟨by simp, ?_⟩, ?_⟩
    · simp
    · simp [sentCount]
  · cases h

/-- An ACK moves the sender's tail to the value it stands for. -/
theorem Inv.tail_deliverAck (h : Inv c s) {a : AckMsg} {pool : PacketBufferPool} (hok : ok c s (.deliverAck a pool)) :
    (s.sender.markCompleted a.sn pool).2.1.tail = max s.sender.tail a.value := by
  obtain ⟨hv, hsn⟩ := h.acks a hok.1
  rw [hsn]
  exact (h.sender.sendQueue_markCompleted (hv.trans h.receiver.tail_le) hok.2 pool).2.1

theorem step_live (h : Live c s) (hok : ok c s e) (hsup : Supplied e) (hs : step c s e = some s') :
    Live c s' ∧ Grows s s' := by
  have hinv' := step_inv h.inv hok hs
  cases e with
  | send bufs pool =>
    obtain ⟨⟨ret, sn, q, pool'⟩, hp, rfl⟩ := Option.map_eq_some_iff.1 hs
    obtain ⟨ids, sq, hsq, -, hfill⟩ := SendQueue.push_some hp
    obtain ⟨-, htail, hhead⟩ := h.inv.sender.sendQueue_push hok.1 hp
    have hpush := h.inv.sender.push hok.1 hsq
    refine ⟨⟨hinv', h.waiting, ?_⟩, ⟨htail.ge, hhead, le_rfl, List.prefix_append _ _, List.prefix_rfl⟩⟩
    intro hlt
    have hahead := SenderInv.fillPrimaryQueue_ahead
      (q := { s.sender with ring := { s.sender.ring with secondaryQueue := sq } }) hpush hsup (htail ▸ hlt)
    rwa [hfill] at hahead
  | receive bufs =>
    obtain ⟨r, hp, rfl⟩ := Option.map_eq_some_iff.1 hs
    obtain ⟨-, ht, hpost⟩ := h.inv.receiver.post hp
    refine ⟨⟨hinv', h.inv.receiver.post_waits h.waiting hp, h.ahead⟩, ⟨le_rfl, le_rfl, ht.ge, List.prefix_rfl, ?_⟩⟩
    show _ <+: r.posted
    rw [hpost]
    exact List.prefix_append _ _
  | setSendWnd w =>
    cases hs
    exact ⟨⟨hinv', h.waiting, h.ahead⟩, ⟨le_rfl, le_rfl, le_rfl, List.prefix_rfl, List.prefix_rfl⟩⟩
  | setRecvWnd w =>
    cases hs
    exact ⟨⟨hinv', ⟨h.waiting.missing, h.waiting.requested⟩, h.ahead⟩,
      ⟨le_rfl, le_rfl, le_rfl, List.prefix_rfl, List.prefix_rfl⟩⟩
  | transmit i ts =>
    obtain ⟨⟨r, m⟩, hp, rfl⟩ := Option.map_eq_some_iff.1 hs
    obtain ⟨-, hhead, -⟩ := h.inv.sender.transmit hok.1 hok.2 hp
    refine ⟨⟨hinv', h.waiting, ?_⟩, ⟨le_rfl, hhead.ge, le_rfl, List.prefix_rfl, List.prefix_rfl⟩⟩
    intro hlt
    show _ < r.head
    rw [hhead]
    exact h.ahead hlt
  | deliverData m =>
    obtain ⟨r, hp, rfl⟩ := Option.map_eq_some_iff.1 hs
    have hsent := h.inv.data m hok.1
    obtain ⟨_, hlens, hlens'⟩ := h.inv.sentLens.common h.inv.postedLens
    obtain ⟨-, ht, hpost⟩ := h.inv.receiver.deliver h.inv.ahead hlens hlens' hsent hok.2 hp
    refine ⟨⟨hinv', h.inv.receiver.deliver_waits h.waiting h.inv.ahead hsent hok.2 hp, h.ahead⟩,
      ⟨le_rfl, le_rfl, ht, List.prefix_rfl, ?_⟩⟩
    show _ <+: r.posted
    rw [hpost]
  | emitAck =>
    cases hs
    exact ⟨⟨hinv', h.waiting, h.ahead⟩, ⟨le_rfl, le_rfl, le_rfl, List.prefix_rfl, List.prefix_rfl⟩⟩
  | deliverAck a pool =>
    have htail := h.inv.tail_deliverAck hok
    have hhead := (SendRing.fill_frame (ackTail s.sender.tail s.sender.ring.head a.sn)
      (s.sender.ring.wndSize + 1) s.sender.ring pool).2.2.2.2
    cases hs
    refine ⟨⟨hinv', h.waiting, fun hlt => ?_⟩, ⟨?_, hhead, le_rfl, List.prefix_rfl, List.prefix_rfl⟩⟩
    · -- the queue the fill loop starts from
      let q : SendQueue := { s.sender with tail := ackTail s.sender.tail s.sender.ring.head a.sn }
      have hq : SenderInv (fragmentSizeOf c.mtuSize) s.sent q.tail q.ring := by
        have hge : s.sender.tail ≤ q.tail := by
          show _ ≤ (s.sender.markCompleted a.sn pool).2.1.tail
          rw [htail]
          exact le_max_left _ _
        have hle : q.tail ≤ s.sender.ring.head := by
          show (s.sender.markCompleted a.sn pool).2.1.tail ≤ _
          rw [htail]
          exact max_le h.inv.sender.tailLe ((h.inv.acks a hok.1).1.trans h.inv.receiver.tail_le)
        exact h.inv.sender.raise hge hle
      exact hq.fillPrimaryQueue_ahead hsup hlt
    · show _ ≤ (s.sender.markCompleted a.sn pool).2.1.tail
      rw [htail]
      exact le_max_left _ _

/-! ### Runs that never end -/

/-- What is assumed of a run that never ends. A fragment that stays in flight arrives some time, and the sender hears
some time of what the receiver has. -/
structure Fair (b : Runs.Behaviour (step c) (ok c)) : Prop where
  supplied : ∀ t, Supplied (b.event t)
  window : ∀ t, 0 < (b.state t).receiver.queue.wndSize
  data : ∀ t i, (∀ u ≥ t, (b.state u).sender.tail ≤ i ∧ i < (b.state u).sender.ring.head) →
    ∃ u ≥ t, ∃ m, b.event u = .deliverData m ∧ m.index = i
  acks : ∀ t n, (∀ u ≥ t, (b.state u).sender.tail < n ∧ n ≤ (b.state u).receiver.queue.tail) →
    ∃ u ≥ t, ∃ a pool, b.event u = .deliverAck a pool ∧ n ≤ a.value

namespace Fair

variable {b : Runs.Behaviour (step c) (ok c)} {t : Nat}

theorem live (h : Fair b) (h0 : start c = some (b.state 0)) : ∀ t, Live c (b.state t)
  | 0 => start_live h0
  | t + 1 => (step_live (h.live h0 t) (b.admitted t) (h.supplied t) (b.next t)).1

theorem grows (h : Fair b) (h0 : start c = some (b.state 0)) (t : Nat) : Grows (b.state t) (b.state (t + 1)) :=
  (step_live (h.live h0 t) (b.admitted t) (h.supplied t) (b.next t)).2

theorem tail_mono (h : Fair b) (h0 : start c = some (b.state 0)) : Monotone fun t => (b.state t).sender.tail :=
  monotone_nat_of_le_succ fun t => (h.grows h0 t).tail

theorem head_mono (h : Fair b) (h0 : start c = some (b.state 0)) : Monotone fun t => (b.state t).sender.ring.head :=
  monotone_nat_of_le_succ fun t => (h.grows h0 t).head

theorem received_mono (h : Fair b) (h0 : start c = some (b.state 0)) :
    Monotone fun t => (b.state t).receiver.queue.tail :=
  monotone_nat_of_le_succ fun t => (h.grows h0 t).received

theorem sentCount_mono (h : Fair b) (h0 : start c = some (b.state 0)) : Monotone fun t => sentCount c (b.state t) :=
  monotone_nat_of_le_succ fun t => length_fragments_le (h.grows h0 t).sent

theorem postedCount_mono (h : Fair b) (h0 : start c = some (b.state 0)) : Monotone fun t => postedCount c (b.state t) :=
  monotone_nat_of_le_succ fun t => length_fragments_le (h.grows h0 t).posted

/-- The fragment that the receiver waits for arrives if it is in flight: it stays in flight until it does. -/
theorem received_grows (h : Fair b) (h0 : start c = some (b.state 0))
    (hflight : (b.state t).receiver.queue.tail < (b.state t).sender.ring.head)
    (hposted : (b.state t).receiver.queue.tail < postedCount c (b.state t)) :
    ∃ u ≥ t, (b.state t).receiver.queue.tail < (b.state u).receiver.queue.tail := by
  rcases Runs.grows_or_stays (h.received_mono h0) t with hgrows | hstays
  · exact hgrows
  · have hlive : ∀ u ≥ t, (b.state u).sender.tail ≤ (b.state t).receiver.queue.tail ∧
        (b.state t).receiver.queue.tail < (b.state u).sender.ring.head := by
      intro u hu
      exact ⟨(h.live h0 u).inv.tail.trans (hstays u hu).le, hflight.trans_le (h.head_mono h0 hu)⟩
    obtain ⟨u, hu, m, he, hi⟩ := h.data t _ hlive
    have hl := h.live h0 u
    have hok := b.admitted u
    have hnext := b.next u
    rw [he] at hok hnext
    obtain ⟨r, hd, hs'⟩ := Option.map_eq_some_iff.1 hnext
    have hpost : (b.state u).receiver.queue.tail < postedCount c (b.state u) := by
      rw [hstays u hu]
      exact hposted.trans_le (h.postedCount_mono h0 hu)
    have hlt := hl.inv.receiver.deliver_next hl.waiting (h.window u) hpost hl.inv.ahead (hl.inv.data m hok.1) hok.2
      (hi.trans (hstays u hu).symm) hd
    refine ⟨u + 1, by omega, ?_⟩
    rw [← hs', ← hstays u hu]
    exact hlt

/-- What the receiver has is acknowledged. -/
theorem tail_grows (h : Fair b) (h0 : start c = some (b.state 0))
    (hlt : (b.state t).sender.tail < (b.state t).receiver.queue.tail) :
    ∃ u ≥ t, (b.state t).sender.tail < (b.state u).sender.tail := by
  rcases Runs.grows_or_stays (h.tail_mono h0) t with hgrows | hstays
  · exact hgrows
  · obtain ⟨u, hu, a, pool, he, hn⟩ := h.acks t (b.state t).receiver.queue.tail fun u hu =>
      ⟨(hstays u hu).le.trans_lt hlt, h.received_mono h0 hu⟩
    have hok := b.admitted u
    have hnext := b.next u
    rw [he] at hok hnext
    have htail := (h.live h0 u).inv.tail_deliverAck hok
    refine ⟨u + 1, by omega, ?_⟩
    rw [← Option.some.inj hnext]
    show _ < (SendQueue.markCompleted _ _ _).2.1.tail
    rw [htail]
    omega

end Fair

/-- Every fragment that is pushed and posted is acknowledged some time, and then its bytes are where they belong. -/
theorem eventually_acknowledged {b : Runs.Behaviour (step c) (ok c)} (h0 : start c = some (b.state 0)) (hfair : Fair b)
    {t i : Nat} (hsent : i < sentCount c (b.state t)) (hposted : i < postedCount c (b.state t)) :
    ∃ u ≥ t, i < (b.state u).sender.tail ∧ ∃ mv, (i, mv) ∈ (b.state u).receiver.writes ∧
      Delivers (fragments (fragmentSizeOf c.mtuSize) (b.state u).sent)
        (fragments (fragmentSizeOf c.mtuSize) (b.state u).receiver.posted) c.smem i mv := by
  obtain ⟨u, hu, hi⟩ : ∃ u ≥ t, i < (b.state u).sender.tail := by
    refine Runs.exists_ge_of_rank
      (fun u => (i + 1 - (b.state u).receiver.queue.tail) + (i + 1 - (b.state u).sender.tail)) fun u hu hno => ?_
    have hl := hfair.live h0 u
    have hsent' : i < sentCount c (b.state u) := hsent.trans_le (hfair.sentCount_mono h0 hu)
    have hposted' : i < postedCount c (b.state u) := hposted.trans_le (hfair.postedCount_mono h0 hu)
    have hbehind := hl.inv.receiver.tail_le
    have hdone : (b.state u).sender.tail < (b.state u).receiver.queue.tail →
        ∃ v ≥ u, i < (b.state v).sender.tail ∨
          (i + 1 - (b.state v).receiver.queue.tail) + (i + 1 - (b.state v).sender.tail) <
            (i + 1 - (b.state u).receiver.queue.tail) + (i + 1 - (b.state u).sender.tail) := by
      intro hlt
      obtain ⟨v, hv, hgrow⟩ := hfair.tail_grows h0 hlt
      have hmono : (b.state u).receiver.queue.tail ≤ (b.state v).receiver.queue.tail := hfair.received_mono h0 hv
      exact ⟨v, hv, .inr (by omega)⟩
    by_cases hmissing : (b.state u).receiver.queue.tail ≤ i
    · by_cases hflight : (b.state u).receiver.queue.tail < (b.state u).sender.ring.head
      · obtain ⟨v, hv, hgrow⟩ := hfair.received_grows h0 hflight (by omega)
        have hmono : (b.state u).sender.tail ≤ (b.state v).sender.tail := hfair.tail_mono h0 hv
        exact ⟨v, hv, .inr (by omega)⟩
      · -- everything in flight is received, but not acknowledged: something waits, so something is in flight
        have hahead := hl.ahead (by omega)
        exact hdone (by omega)
    · exact hdone (by omega)
  have hl := hfair.live h0 u
  obtain ⟨mv, hmv⟩ := hl.inv.receiver.written (hi.trans_le hl.inv.tail)
  exact ⟨u, hu, hi, mv, hmv⟩

/-- The first packet is lost once, and after the transfer the receiver goes on with its ACKs. -/
def liveRun : List Event :=
  [.send [⟨100, 3⟩] ⟨[0, 1, 2]⟩, .receive [⟨200, 3⟩], .transmit 0 7, .transmit 1 7, .deliverData (samplePacket 1),
   .transmit 0 7, .deliverData (samplePacket 0), .emitAck, .deliverAck ⟨2, 2⟩ ⟨[2]⟩]

theorem eventually_acknowledged_sample : ∃ b : Runs.Behaviour (step sample) (ok sample),
    start sample = some (b.state 0) ∧ Fair b ∧ ∃ u ≥ 2, 1 < (b.state u).sender.tail := by
  obtain ⟨s, hrun, ht⟩ := Runs.exists_run_of_exec (step sample) (ok sample) sampleStart liveRun
    (fun s => s.sender.tail = 2 ∧ s.sender.ring.head = 2 ∧ s.receiver.queue.tail = 2 ∧ 0 < s.receiver.queue.wndSize)
    (by decide +kernel)
  obtain ⟨htail, hhead, hrecv, hwnd⟩ := of_decide_eq_true ht
  let emit (s : State) : State := { s with acks := s.acks ++ [s.receiver.ack] }
  obtain ⟨b, h0, hevents, hstates, hrest⟩ :=
    hrun.followed_by (f := emit) (e := .emitAck) (fun _ => trivial) fun _ => rfl
  have hend : ∀ t ≥ 9, (b.state t).sender = s.sender ∧ (b.state t).receiver = s.receiver := by
    intro t ht
    obtain ⟨k, hk⟩ := hrest t ht
    rw [hk]
    clear hk
    induction k with
    | zero => exact ⟨rfl, rfl⟩
    | succ k ih => rw [Function.iterate_succ_apply']; exact ih
  have hstart : start sample = some (b.state 0) := by
    rw [h0]
    simp [sampleStart]
  have hfair : Fair b := by
    refine ⟨fun t => ?_, fun t => ?_, fun t i hlive => ?_, fun t n hbehind => ?_⟩
    · rcases hevents t with he | he
      · exact (by decide : ∀ e ∈ liveRun, Supplied e) _ he
      · rw [he]; trivial
    · rcases Nat.lt_or_ge t 9 with hlt | hge
      · exact of_decide_eq_true ((hstates t hlt.le).test_of_exec (fun s => decide (0 < s.receiver.queue.wndSize))
          (by revert t; decide +kernel))
      · rw [(hend t hge).2]; exact hwnd
    · have hlast := hlive (t + 9) (by omega)
      rw [(hend (t + 9) (by omega)).1] at hlast
      omega
    · have hlast := hbehind (t + 9) (by omega)
      rw [(hend (t + 9) (by omega)).1, (hend (t + 9) (by omega)).2] at hlast
      omega
  have hposted := of_decide_eq_true ((hstates 2 (by decide)).test_of_exec
    (fun s => decide (1 < sentCount sample s ∧ 1 < postedCount sample s)) (by decide +kernel))
  obtain ⟨u, hu, hi, -⟩ := eventually_acknowledged hstart hfair hposted.1 hposted.2
  exact ⟨b, hstart, hfair, u, hu, hi⟩

end RapidTransfer.Unicast

/-! ## Several receivers -/

namespace RapidTransfer.Multicast

variable {c : Config} {s s' : State c.n} {e : Event c.n}

def Supplied {n : Nat} : Event n → Prop
  | .send _ pool => pool.freeBuffers ≠ []
  | .deliverAck _ _ pool => pool.freeBuffers ≠ []
  | _ => True

instance {n : Nat} : ∀ e : Event n, Decidable (Supplied e)
  | .send _ _ => inferInstanceAs (Decidable (_ ≠ _))
  | .deliverAck _ _ _ => inferInstanceAs (Decidable (_ ≠ _))
  | .receive _ _ => inferInstanceAs (Decidable True)
  | .setSendWnd _ => inferInstanceAs (Decidable True)
  | .setRecvWnd _ _ => inferInstanceAs (Decidable True)
  | .transmit _ _ => inferInstanceAs (Decidable True)
  | .deliverData _ _ => inferInstanceAs (Decidable True)
  | .emitAck _ => inferInstanceAs (Decidable True)

def sentCount (c : Config) (s : State c.n) : Nat := (fragments (fragmentSizeOf c.mtuSize) s.sent).length
def postedCount (c : Config) (s : State c.n) (r : Fin c.n) : Nat :=
  (fragments (fragmentSizeOf c.mtuSize) (s.receivers r).posted).length

/-- The entry of `tail_list_` of a receiver. -/
def State.tail {n : Nat} (s : State n) (r : Fin n) : Nat := s.sender.tailList.getD r 0

structure Live (c : Config) (s : State c.n) : Prop where
  inv : Inv c s
  waiting : ∀ r, (s.receivers r).Waiting (fragmentSizeOf c.mtuSize)
  ahead : s.sender.getMinTailIndex < sentCount c s → s.sender.getMinTailIndex < s.sender.ring.head

structure Grows (s s' : State c.n) : Prop where
  tail : ∀ r, s.tail r ≤ s'.tail r
  head : s.sender.ring.head ≤ s'.sender.ring.head
  received : ∀ r, (s.receivers r).queue.tail ≤ (s'.receivers r).queue.tail
  sent : s.sent <+: s'.sent
  posted : ∀ r, (s.receivers r).posted <+: (s'.receivers r).posted

namespace Inv

theorem getElem?_tail (h : Inv c s) (r : Fin c.n) : s.sender.tailList[(r : Nat)]? = some (s.tail r) := by
  obtain ⟨t, ht, -⟩ := h.tail_exists r
  rw [State.tail, List.getD_eq_getElem?_getD, ht]
  rfl

theorem tail_le (h : Inv c s) (r : Fin c.n) : s.tail r ≤ (s.receivers r).queue.tail :=
  h.tails r _ (h.getElem?_tail r)

/-- Some receiver has the least tail. -/
theorem exists_least (h : Inv c s) : ∃ r, s.tail r = s.sender.getMinTailIndex := by
  have hne : s.sender.tailList ≠ [] := by
    intro hnil
    have := h.count
    rw [hnil] at this
    exact c.n_pos.ne this
  obtain ⟨k, hk, hmin⟩ := List.getElem_of_mem (McastSendQueue.getMinTailIndex_mem hne)
  refine ⟨⟨k, h.count ▸ hk⟩, ?_⟩
  rw [State.tail, List.getD_eq_getElem?_getD, List.getElem?_eq_getElem hk, hmin]
  rfl

theorem least_le (h : Inv c s) (r : Fin c.n) : s.sender.getMinTailIndex ≤ s.tail r :=
  McastSendQueue.getMinTailIndex_le (List.mem_of_getElem? (h.getElem?_tail r))

/-- An ACK moves the tail of the receiver it comes from. -/
theorem tailList_deliverAck (h : Inv c s) {r : Fin c.n} {a : AckMsg} {pool : PacketBufferPool}
    (hok : ok c s (.deliverAck r a pool)) :
    (s.sender.markCompleted r a.sn pool).2.1 =
      (McastSendQueue.fillPrimaryQueue { s.sender with tailList := s.sender.tailList.set r (max (s.tail r) a.value) }
        pool).2.1 := by
  obtain ⟨hv, hsn⟩ := h.acks _ hok.1
  have htr := h.tail_le r
  have hrh := (h.replicas r).receiver.tail_le
  have h16 := h.sender.len16
  have hmin := h.least_le r
  have hlt := (List.getElem?_eq_some_iff.1 (h.getElem?_tail r)).1
  have htail : ackTail (s.sender.tailList.getD r 0) s.sender.ring.head a.sn = max (s.tail r) a.value := by
    rw [hsn]
    exact SenderInv.ackTail_eq (htr.trans hrh) (show _ ≤ s.tail r + 2 ^ 16 by omega) (hv.trans hrh) hok.2
  unfold McastSendQueue.markCompleted
  rw [if_neg (by omega)]
  simp only [Int.toNat_natCast, htail]

theorem tail_deliverAck (h : Inv c s) {r : Fin c.n} {a : AckMsg} {pool : PacketBufferPool}
    (hok : ok c s (.deliverAck r a pool)) (k : Fin c.n) :
    State.tail { s with sender := (s.sender.markCompleted r a.sn pool).2.1 } k =
      if k = r then max (s.tail r) a.value else s.tail k := by
  have hlt := (List.getElem?_eq_some_iff.1 (h.getElem?_tail r)).1
  rw [State.tail, h.tailList_deliverAck hok]
  show (s.sender.tailList.set r (max (s.tail r) a.value)).getD k 0 = _
  rw [List.getD_eq_getElem?_getD, List.getElem?_set]
  by_cases hk : k = r
  · rw [hk, if_pos rfl, if_pos hlt, if_pos rfl]
    rfl
  · rw [if_neg (fun he => hk (Fin.ext he.symm)), if_neg hk, State.tail, List.getD_eq_getElem?_getD]

end Inv

theorem start_live (h : Start c s) : Live c s := by
  have hinv := start_inv h
  obtain ⟨-, hsent, hrecv, -⟩ := h
  refine ⟨hinv, fun r => ?_, ?_⟩
  · obtain ⟨-, hposted, -, hwrites⟩ := hrecv r
    exact ⟨by simp [hwrites], by simp [hposted]⟩
  · simp [sentCount, hsent]

/-- An event of one receiver. -/
theorem Live.receiver_step (h : Live c s) {r : Fin c.n} {x : Receiver}
    (hinv : Inv c { s with receivers := Function.update s.receivers r x })
    (hx : x.Waiting (fragmentSizeOf c.mtuSize)) (ht : (s.receivers r).queue.tail ≤ x.queue.tail)
    (hp : (s.receivers r).posted <+: x.posted) :
    Live c { s with receivers := Function.update s.receivers r x } ∧
      Grows s { s with receivers := Function.update s.receivers r x } := by
  refine ⟨⟨hinv, fun k => ?_, h.ahead⟩, ⟨fun _ => le_rfl, le_rfl, fun k => ?_, List.prefix_rfl, fun k => ?_⟩⟩
  · by_cases hk : k = r
    · subst hk; simp only [Function.update_self]; exact hx
    · simp only [Function.update_of_ne hk]; exact h.waiting k
  · by_cases hk : k = r
    · subst hk; simp only [Function.update_self]; exact ht
    · simp only [Function.update_of_ne hk]; exact le_rfl
  · by_cases hk : k = r
    · subst hk; simp only [Function.update_self]; exact hp
    · simp only [Function.update_of_ne hk]; exact List.prefix_rfl

theorem step_live (h : Live c s) (hok : ok c s e) (hsup : Supplied e) (hs : step c s e = some s') :
    Live c s' ∧ Grows s s' := by
  have hinv' := step_inv h.inv hok hs
  cases e with
  | send bufs pool =>
    obtain ⟨⟨ret, sn, q, pool'⟩, hp, rfl⟩ := Option.map_eq_some_iff.1 hs
    obtain ⟨ids, sq, hsq, -, hfill⟩ := McastSendQueue.push_some hp
    obtain ⟨-, htail, hhead⟩ := h.inv.sender.mcastSendQueue_push hok.1 hp
    have hpush := h.inv.sender.push hok.1 hsq
    refine ⟨⟨hinv', h.waiting, fun hlt => ?_⟩, ⟨fun r => ?_, hhead, fun _ => le_rfl, List.prefix_append _ _,
      fun _ => List.prefix_rfl⟩⟩
    · have hmin : q.getMinTailIndex = s.sender.getMinTailIndex := by
        unfold McastSendQueue.getMinTailIndex
        rw [htail]
      have hahead := SenderInv.mcastFillPrimaryQueue_ahead
        (q := { s.sender with ring := { s.sender.ring with secondaryQueue := sq } }) hpush hsup (hmin ▸ hlt)
      rwa [hfill] at hahead
    · show s.tail r ≤ q.tailList.getD r 0
      rw [htail]
      exact le_rfl
  | receive r bufs =>
    obtain ⟨x, hp, rfl⟩ := Option.map_eq_some_iff.1 hs
    have hr := (h.inv.replicas r).receiver
    obtain ⟨-, ht, hpost⟩ := hr.post hp
    refine h.receiver_step hinv' (hr.post_waits (h.waiting r) hp) ht.ge ?_
    rw [hpost]
    exact List.prefix_append _ _
  | setSendWnd w =>
    cases hs
    exact ⟨⟨hinv', h.waiting, h.ahead⟩,
      ⟨fun _ => le_rfl, le_rfl, fun _ => le_rfl, List.prefix_rfl, fun _ => List.prefix_rfl⟩⟩
  | setRecvWnd r w =>
    cases hs
    exact h.receiver_step hinv' ⟨(h.waiting r).missing, (h.waiting r).requested⟩ le_rfl List.prefix_rfl
  | transmit i ts =>
    obtain ⟨⟨ring, m⟩, hp, rfl⟩ := Option.map_eq_some_iff.1 hs
    obtain ⟨-, hhead, -⟩ := h.inv.sender.transmit hok.1 hok.2 hp
    refine ⟨⟨hinv', h.waiting, fun hlt => ?_⟩, ⟨fun _ => le_rfl, hhead.ge, fun _ => le_rfl, List.prefix_rfl,
      fun _ => List.prefix_rfl⟩⟩
    show _ < ring.head
    rw [hhead]
    exact h.ahead hlt
  | deliverData r m =>
    obtain ⟨x, hp, rfl⟩ := Option.map_eq_some_iff.1 hs
    have hr := h.inv.replicas r
    have hsent := h.inv.data m hok.1
    obtain ⟨_, hlens, hlens'⟩ := h.inv.sentLens.common hr.postedLens
    obtain ⟨-, ht, hpost⟩ := hr.receiver.deliver (h.inv.ahead r) hlens hlens' hsent hok.2 hp
    refine h.receiver_step hinv' (hr.receiver.deliver_waits (h.waiting r) (h.inv.ahead r) hsent hok.2 hp) ht ?_
    rw [hpost]
  | emitAck r =>
    cases hs
    exact ⟨⟨hinv', h.waiting, h.ahead⟩,
      ⟨fun _ => le_rfl, le_rfl, fun _ => le_rfl, List.prefix_rfl, fun _ => List.prefix_rfl⟩⟩
  | deliverAck r a pool =>
    have hq := h.inv.tailList_deliverAck hok
    have htail := h.inv.tail_deliverAck hok
    cases hs
    -- the queue the fill loop starts from
    let q : McastSendQueue := { s.sender with tailList := s.sender.tailList.set r (max (s.tail r) a.value) }
    have hhead := (SendRing.fill_frame q.getMinTailIndex (s.sender.ring.wndSize + 1) s.sender.ring pool).2.2.2.2
    refine ⟨⟨hinv', h.waiting, ?_⟩, ⟨fun k => ?_, ?_, fun _ => le_rfl, List.prefix_rfl, fun _ => List.prefix_rfl⟩⟩
    · have hbehind : ∀ u ∈ s.sender.tailList, u ≤ s.sender.ring.head := by
        intro u hu
        obtain ⟨k, hk, rfl⟩ := List.getElem_of_mem hu
        have hkn : k < c.n := h.inv.count ▸ hk
        exact (h.inv.tails ⟨k, hkn⟩ _ (List.getElem?_eq_getElem hk)).trans (h.inv.replicas ⟨k, hkn⟩).receiver.tail_le
      have hrh := (h.inv.replicas r).receiver.tail_le
      obtain ⟨-, -, h1, h2⟩ := McastSendQueue.raise_tail (List.getElem?_eq_some_iff.1 (h.inv.getElem?_tail r)).1 hbehind
        (le_max_left (s.tail r) a.value)
        (max_le ((h.inv.tail_le r).trans hrh) ((h.inv.acks _ hok.1).1.trans hrh))
      have hraise : SenderInv (fragmentSizeOf c.mtuSize) s.sent q.getMinTailIndex q.ring := h.inv.sender.raise h1 h2
      intro hlt
      simp only [hq] at hlt ⊢
      exact hraise.mcastFillPrimaryQueue_ahead hsup hlt
    · rw [htail k]
      split
      · rename_i hk
        rw [hk]
        exact le_max_left _ _
      · exact le_rfl
    · simp only [hq]
      exact hhead

/-! ### Runs that never end -/

/-- As for one receiver, for each of them. -/
structure Fair (b : Runs.Behaviour (step c) (ok c)) : Prop where
  supplied : ∀ t, Supplied (b.event t)
  window : ∀ t r, 0 < ((b.state t).receivers r).queue.wndSize
  data : ∀ t r i, (∀ u ≥ t, (b.state u).tail r ≤ i ∧ i < (b.state u).sender.ring.head) →
    ∃ u ≥ t, ∃ m, b.event u = .deliverData r m ∧ m.index = i
  acks : ∀ t r n, (∀ u ≥ t, (b.state u).tail r < n ∧ n ≤ ((b.state u).receivers r).queue.tail) →
    ∃ u ≥ t, ∃ a pool, b.event u = .deliverAck r a pool ∧ n ≤ a.value

namespace Fair

variable {b : Runs.Behaviour (step c) (ok c)} {t : Nat}

theorem live (h : Fair b) (h0 : Start c (b.state 0)) : ∀ t, Live c (b.state t)
  | 0 => start_live h0
  | t + 1 => (step_live (h.live h0 t) (b.admitted t) (h.supplied t) (b.next t)).1

theorem grows (h : Fair b) (h0 : Start c (b.state 0)) (t : Nat) : Grows (b.state t) (b.state (t + 1)) :=
  (step_live (h.live h0 t) (b.admitted t) (h.supplied t) (b.next t)).2

theorem tail_mono (h : Fair b) (h0 : Start c (b.state 0)) (r : Fin c.n) : Monotone fun t => (b.state t).tail r :=
  monotone_nat_of_le_succ fun t => (h.grows h0 t).tail r

theorem head_mono (h : Fair b) (h0 : Start c (b.state 0)) : Monotone fun t => (b.state t).sender.ring.head :=
  monotone_nat_of_le_succ fun t => (h.grows h0 t).head

theorem received_mono (h : Fair b) (h0 : Start c (b.state 0)) (r : Fin c.n) :
    Monotone fun t => ((b.state t).receivers r).queue.tail :=
  monotone_nat_of_le_succ fun t => (h.grows h0 t).received r

theorem sentCount_mono (h : Fair b) (h0 : Start c (b.state 0)) : Monotone fun t => sentCount c (b.state t) :=
  monotone_nat_of_le_succ fun t => length_fragments_le (h.grows h0 t).sent

theorem postedCount_mono (h : Fair b) (h0 : Start c (b.state 0)) (r : Fin c.n) :
    Monotone fun t => postedCount c (b.state t) r :=
  monotone_nat_of_le_succ fun t => length_fragments_le ((h.grows h0 t).posted r)

theorem received_grows (h : Fair b) (h0 : Start c (b.state 0)) {r : Fin c.n}
    (hflight : ((b.state t).receivers r).queue.tail < (b.state t).sender.ring.head)
    (hposted : ((b.state t).receivers r).queue.tail < postedCount c (b.state t) r) :
    ∃ u ≥ t, ((b.state t).receivers r).queue.tail < ((b.state u).receivers r).queue.tail := by
  rcases Runs.grows_or_stays (h.received_mono h0 r) t with hgrows | hstays
  · exact hgrows
  · have hlive : ∀ u ≥ t, (b.state u).tail r ≤ ((b.state t).receivers r).queue.tail ∧
        ((b.state t).receivers r).queue.tail < (b.state u).sender.ring.head := by
      intro u hu
      exact ⟨((h.live h0 u).inv.tail_le r).trans (hstays u hu).le, hflight.trans_le (h.head_mono h0 hu)⟩
    obtain ⟨u, hu, m, he, hi⟩ := h.data t r _ hlive
    have hl := h.live h0 u
    have hok := b.admitted u
    have hnext := b.next u
    rw [he] at hok hnext
    obtain ⟨x, hd, hs'⟩ := Option.map_eq_some_iff.1 hnext
    have hpost : ((b.state u).receivers r).queue.tail < postedCount c (b.state u) r := by
      rw [hstays u hu]
      exact hposted.trans_le (h.postedCount_mono h0 r hu)
    have hlt := (hl.inv.replicas r).receiver.deliver_next (hl.waiting r) (h.window u r) hpost (hl.inv.ahead r)
      (hl.inv.data m hok.1) hok.2 (hi.trans (hstays u hu).symm) hd
    refine ⟨u + 1, by omega, ?_⟩
    rw [← hs', ← hstays u hu]
    simpa using hlt

theorem tail_grows (h : Fair b) (h0 : Start c (b.state 0)) {r : Fin c.n}
    (hlt : (b.state t).tail r < ((b.state t).receivers r).queue.tail) :
    ∃ u ≥ t, (b.state t).tail r < (b.state u).tail r := by
  rcases Runs.grows_or_stays (h.tail_mono h0 r) t with hgrows | hstays
  · exact hgrows
  · obtain ⟨u, hu, a, pool, he, hn⟩ := h.acks t r ((b.state t).receivers r).queue.tail fun u hu =>
      ⟨(hstays u hu).le.trans_lt hlt, h.received_mono h0 r hu⟩
    have hok := b.admitted u
    have hnext := b.next u
    rw [he] at hok hnext
    have htail := (h.live h0 u).inv.tail_deliverAck hok r
    refine ⟨u + 1, by omega, ?_⟩
    rw [← Option.some.inj hnext, htail, if_pos rfl]
    omega

end Fair

/-- What is missing for everybody to have acknowledged index `i`. -/
def missing (s : State c.n) (i : Nat) : Nat := ∑ r, ((i + 1 - (s.receivers r).queue.tail) + (i + 1 - s.tail r))

theorem missing_lt {s s' : State c.n} {i : Nat} {r : Fin c.n}
    (htail : ∀ k, s.tail k ≤ s'.tail k) (hrecv : ∀ k, (s.receivers k).queue.tail ≤ (s'.receivers k).queue.tail)
    (hr : (s.tail r < s'.tail r ∧ s.tail r ≤ i) ∨
      ((s.receivers r).queue.tail < (s'.receivers r).queue.tail ∧ (s.receivers r).queue.tail ≤ i)) :
    missing s' i < missing s i := by
  refine Finset.sum_lt_sum (fun k _ => ?_) ⟨r, Finset.mem_univ r, ?_⟩
  · have := htail k
    have := hrecv k
    omega
  · have := htail r
    have := hrecv r
    omega

/-- Every fragment that is pushed, and posted by every receiver, is acknowledged by all of them some time, and then its
bytes are where they belong. -/
theorem eventually_acknowledged_by_all {b : Runs.Behaviour (step c) (ok c)} (h0 : Start c (b.state 0)) (hfair : Fair b)
    {t i : Nat} (hsent : i < sentCount c (b.state t)) (hposted : ∀ r, i < postedCount c (b.state t) r) :
    ∃ u ≥ t, ∀ r, i < (b.state u).tail r ∧ ∃ mv, (i, mv) ∈ ((b.state u).receivers r).writes ∧
      Delivers (fragments (fragmentSizeOf c.mtuSize) (b.state u).sent)
        (fragments (fragmentSizeOf c.mtuSize) ((b.state u).receivers r).posted) c.smem i mv := by
  obtain ⟨u, hu, hi⟩ : ∃ u ≥ t, i < (b.state u).sender.getMinTailIndex := by
    refine Runs.exists_ge_of_rank (fun u => missing (b.state u) i) fun u hu hno => ?_
    have hl := hfair.live h0 u
    -- the receiver that is furthest behind
    obtain ⟨r, hr⟩ := hl.inv.exists_least
    have hsent' : i < sentCount c (b.state u) := hsent.trans_le (hfair.sentCount_mono h0 hu)
    have hposted' : i < postedCount c (b.state u) r := (hposted r).trans_le (hfair.postedCount_mono h0 r hu)
    have hbehind := (hl.inv.replicas r).receiver.tail_le
    have hdone : (b.state u).tail r < ((b.state u).receivers r).queue.tail →
        ∃ v ≥ u, i < (b.state v).sender.getMinTailIndex ∨ missing (b.state v) i < missing (b.state u) i := by
      intro hlt
      obtain ⟨v, hv, hgrow⟩ := hfair.tail_grows h0 hlt
      exact ⟨v, hv, .inr (missing_lt (fun k => hfair.tail_mono h0 k hv) (fun k => hfair.received_mono h0 k hv)
        (.inl ⟨hgrow, by omega⟩))⟩
    by_cases hmissing : ((b.state u).receivers r).queue.tail ≤ i
    · by_cases hflight : ((b.state u).receivers r).queue.tail < (b.state u).sender.ring.head
      · obtain ⟨v, hv, hgrow⟩ := hfair.received_grows h0 hflight (by omega)
        exact ⟨v, hv, .inr (missing_lt (fun k => hfair.tail_mono h0 k hv) (fun k => hfair.received_mono h0 k hv)
          (.inr ⟨hgrow, hmissing⟩))⟩
      · have hahead := hl.ahead (by omega)
        exact hdone (by omega)
    · exact hdone (by omega)
  have hl := hfair.live h0 u
  refine ⟨u, hu, fun r => ?_⟩
  have hir : i < (b.state u).tail r := hi.trans_le (hl.inv.least_le r)
  obtain ⟨mv, hmv⟩ := (hl.inv.replicas r).receiver.written (hir.trans_le (hl.inv.tail_le r))
  exact ⟨hir, mv, hmv⟩

def firstReceiver : Fin sample.n := ⟨0, Nat.two_pos⟩
def secondReceiver : Fin sample.n := ⟨1, Nat.one_lt_two⟩

/-- The second receiver loses the second packet once. -/
def liveRun : List (Event sample.n) :=
  [.send [⟨100, 3⟩] ⟨[0, 1, 2]⟩, .receive firstReceiver [⟨200, 3⟩], .receive secondReceiver [⟨300, 3⟩], .transmit 0 7,
   .transmit 1 7, .deliverData firstReceiver (samplePacket 1), .deliverData firstReceiver (samplePacket 0),
   .deliverData secondReceiver (samplePacket 0), .emitAck firstReceiver, .deliverAck firstReceiver ⟨2, 2⟩ ⟨[2]⟩,
   .transmit 1 7,
   .deliverData secondReceiver (samplePacket 1), .emitAck secondReceiver, .deliverAck secondReceiver ⟨2, 2⟩ ⟨[2]⟩]

theorem eventually_acknowledged_by_both : ∃ b : Runs.Behaviour (step sample) (ok sample),
    Start sample (b.state 0) ∧ Fair b ∧ ∃ u ≥ 3, ∀ r, 1 < (b.state u).tail r := by
  obtain ⟨s, hrun, ht⟩ := Runs.exists_run_of_exec (step sample) (ok sample) sampleStart liveRun
    (fun s => s.sender.ring.head = 2 ∧ ∀ r, s.tail r = 2 ∧ (s.receivers r).queue.tail = 2 ∧
      0 < (s.receivers r).queue.wndSize)
    (by decide +kernel)
  obtain ⟨hhead, hrecv⟩ := of_decide_eq_true ht
  let emit (s : State sample.n) : State sample.n :=
    { s with acks := s.acks ++ [(firstReceiver, (s.receivers firstReceiver).ack)] }
  obtain ⟨b, h0, hevents, hstates, hrest⟩ :=
    hrun.followed_by (f := emit) (e := .emitAck firstReceiver) (fun _ => trivial)
    fun _ => rfl
  have hend : ∀ t ≥ 14, (b.state t).sender = s.sender ∧ (b.state t).receivers = s.receivers := by
    intro t ht
    obtain ⟨k, hk⟩ := hrest t ht
    rw [hk]
    clear hk
    induction k with
    | zero => exact ⟨rfl, rfl⟩
    | succ k ih => rw [Function.iterate_succ_apply']; exact ih
  have hstart : Start sample (b.state 0) := by
    rw [h0]
    exact ⟨rfl, rfl, fun r => ⟨by simp [sampleStart], rfl, rfl, rfl⟩, rfl, rfl⟩
  have htail : ∀ t ≥ 14, ∀ r, (b.state t).tail r = 2 := by
    intro t ht r
    unfold State.tail
    rw [(hend t ht).1]
    exact (hrecv r).1
  have hfair : Fair b := by
    refine ⟨fun t => ?_, fun t r => ?_, fun t r i hlive => ?_, fun t r n hbehind => ?_⟩
    · rcases hevents t with he | he
      · exact (by decide : ∀ e ∈ liveRun, Supplied e) _ he
      · rw [he]; trivial
    · rcases Nat.lt_or_ge t 14 with hlt | hge
      · exact of_decide_eq_true ((hstates t hlt.le).test_of_exec
          (fun s => decide (∀ r, 0 < (s.receivers r).queue.wndSize)) (by revert t; decide +kernel)) r
      · rw [(hend t hge).2]; exact (hrecv r).2.2
    · have hlast := hlive (t + 14) (by omega)
      rw [htail (t + 14) (by omega), (hend (t + 14) (by omega)).1] at hlast
      omega
    · have hlast := hbehind (t + 14) (by omega)
      have := (hrecv r).2.1
      rw [htail (t + 14) (by omega), (hend (t + 14) (by omega)).2] at hlast
      omega
  have hposted := of_decide_eq_true ((hstates 3 (by decide)).test_of_exec
    (fun s => decide (1 < sentCount sample s ∧ ∀ r, 1 < postedCount sample s r)) (by decide +kernel))
  obtain ⟨u, hu, hi⟩ := eventually_acknowledged_by_all hstart hfair hposted.1 hposted.2
  exact ⟨b, hstart, hfair, u, hu, fun r => (hi r).1⟩

end RapidTransfer.Multicast
