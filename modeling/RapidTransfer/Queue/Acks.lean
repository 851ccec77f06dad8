/-
Cumulative acknowledgements over runs of any length. The room test keeps fewer than `2^24` indices between a tail and
`head_`, whatever is pushed, acknowledged or set as the window, so a 24-bit number stands for at most one index there:
`markCompleted` moves the tail to that index, and stays where it is when the number stands for none
(`acks_exact`).
-/
import RapidTransfer.Queue.Ready
import RapidTransfer.Queue.Ops

namespace RapidTransfer

/-- The tail goes to the one index of `[tail, head]` with the number, or stays if no index has it. -/
def Unwraps (tail head ackSn tail' : Nat) : Prop :=
  ((∃! t, (tail ≤ t ∧ t ≤ head) ∧ shortSN t = ackSn) ∧ (tail ≤ tail' ∧ tail' ≤ head) ∧ shortSN tail' = ackSn) ∨
    ((∀ t, tail ≤ t → t ≤ head → shortSN t ≠ ackSn) ∧ tail' = tail)

theorem unwraps_ackTail {tail head ackSn : Nat} (hle : tail ≤ head) (hlt : head < tail + 2 ^ 24)
    (hsn : ackSn < 2 ^ 24) : Unwraps tail head ackSn (ackTail tail head ackSn) := by
  rw [ackTail_eq_unwrap]
  by_cases h : ∃ t, tail ≤ t ∧ t ≤ head ∧ shortSN t = ackSn
  · obtain ⟨t, h1, h2, rfl⟩ := h
    have ht : Serial.unwrap (2 ^ 24) tail head (shortSN t) = t := Serial.unwrap_of_mem hlt h1 h2
    rw [ht]
    refine .inl ⟨⟨t, ⟨⟨h1, h2⟩, rfl⟩, ?_⟩, ⟨h1, h2⟩, rfl⟩
    rintro u ⟨⟨hu1, hu2⟩, hu⟩
    exact Serial.eq_of_mod_eq hu (by omega) (by omega)
  · push Not at h
    exact .inr ⟨h, Serial.unwrap_of_not_mem hle hlt hsn h⟩

theorem Unwraps.bounds {tail head ackSn tail' : Nat} (h : Unwraps tail head ackSn tail') (hle : tail ≤ head) :
    tail ≤ tail' ∧ tail' ≤ head := by
  rcases h with ⟨-, hb, -⟩ | ⟨-, rfl⟩
  · exact hb
  · exact ⟨le_refl _, hle⟩

/-! ## The window of a send ring -/

theorem SendRing.Ready.setWndSize {tail : Nat} {r : SendRing} (h : r.Ready tail) (w : Nat) :
    (r.setWndSize w).Ready tail :=
  ⟨h.owned, h.noGrh, (min_le_right _ _).trans (Nat.mod_le _ _),
    lt_of_le_of_lt (min_le_left _ _) (Nat.mod_lt _ (by norm_num)), h.tailLe, h.lenCap, h.len16⟩

theorem SendRing.Ready.raise {tail tail' : Nat} {r : SendRing} (h : r.Ready tail) (h1 : tail ≤ tail')
    (h2 : tail' ≤ r.head) : r.Ready tail' := by
  have hc := h.lenCap
  have h16 := h.len16
  exact ⟨h.owned, h.noGrh, h.wndCap, h.wnd16, h2, by omega, by omega⟩

/-- A tail at or above the one that bounds the ring. -/
theorem SendRing.Ready.unwraps {tail t : Nat} {r : SendRing} (h : r.Ready tail) (h1 : tail ≤ t)
    (h2 : t ≤ r.head) {ackSn : Nat} (hsn : ackSn < 2 ^ 24) : Unwraps t r.head ackSn (ackTail t r.head ackSn) := by
  have h16 := h.len16
  exact unwraps_ackTail h2 (by omega) hsn

namespace McastSendQueue

/-- The ring is bounded by the least of the tails, and all of them are behind `head_`. -/
structure Ready (q : McastSendQueue) : Prop where
  ring : q.ring.Ready q.getMinTailIndex
  replicas : q.tailList ≠ []
  tails : ∀ t ∈ q.tailList, t ≤ q.ring.head

/-- The tails after an ACK of replica `k`. -/
def acked (q : McastSendQueue) (k ackSn : Nat) : McastSendQueue :=
  { q with tailList := q.tailList.set k (ackTail (q.tailList.getD k 0) q.ring.head ackSn) }

variable {q : McastSendQueue}

namespace Ready

theorem construct {raw : PacketHandle} {mtu cap wnd session n : Nat} (hn : n ≠ 0)
    (h : McastSendQueue.construct raw mtu cap wnd session n = some q) : q.Ready := by
  obtain ⟨r, hr, rfl⟩ := Option.map_eq_some_iff.1 h
  refine ⟨?_, by simpa using hn, ?_⟩
  · rw [getMinTailIndex_replicate r hn]
    exact SendRing.Ready.construct hr
  · intro t ht
    rw [List.eq_of_mem_replicate ht]
    exact Nat.zero_le _

theorem fillPrimaryQueue (h : q.Ready) (pool : PacketBufferPool) : (q.fillPrimaryQueue pool).2.1.Ready := by
  have hhead := (SendRing.fill_frame q.getMinTailIndex (q.ring.wndSize + 1) q.ring pool).2.2.2.2
  exact ⟨h.ring.fill (q.ring.wndSize + 1) pool, h.replicas, fun t ht => (h.tails t ht).trans hhead⟩

theorem unwraps (h : q.Ready) {k ackSn : Nat} (hk : k < q.tailList.length) (hsn : ackSn < 2 ^ 24) :
    Unwraps (q.tailList.getD k 0) q.ring.head ackSn (ackTail (q.tailList.getD k 0) q.ring.head ackSn) :=
  h.ring.unwraps (getMinTailIndex_le (tail_mem hk)) (h.tails _ (tail_mem hk)) hsn

/-- One tail moves up, and the least one with it or not at all. -/
theorem acked (h : q.Ready) {k ackSn : Nat} (hk : k < q.tailList.length) (hsn : ackSn < 2 ^ 24) :
    (q.acked k ackSn).Ready ∧ q.getMinTailIndex ≤ (q.acked k ackSn).getMinTailIndex := by
  obtain ⟨hup, hhead⟩ := (h.unwraps hk hsn).bounds (h.tails _ (tail_mem hk))
  obtain ⟨hne, htails, hleast, hbehind⟩ := raise_tail hk h.tails hup hhead
  exact ⟨⟨h.ring.raise hleast hbehind, hne, htails⟩, hleast⟩

end Ready

theorem markCompleted_eq {k : Nat} (hk : k < q.tailList.length) (ackSn : Nat) (pool : PacketBufferPool) :
    q.markCompleted k ackSn pool = (q.acked k ackSn).fillPrimaryQueue pool := by
  unfold markCompleted
  rw [if_neg (by omega)]
  rfl

end McastSendQueue

namespace Queue

/-- What an ACK does to the tails of a send queue. -/
def AcksExactly (q : Queue) (ackSn : Nat) (pool : PacketBufferPool) : Prop :=
  match q with
  | .send q =>
    Unwraps q.tail q.ring.head ackSn (q.markCompleted ackSn pool).2.1.tail ∧
      q.tail ≤ (q.markCompleted ackSn pool).2.1.tail ∧
      (q.markCompleted ackSn pool).2.1.tail ≤ q.ring.head ∧ q.ring.head ≤ (q.markCompleted ackSn pool).2.1.ring.head
  | .mcast q => ∀ k < q.tailList.length, ∀ t, q.tailList[k]? = some t →
    ∃ t', (q.markCompleted k ackSn pool).2.1.tailList[k]? = some t' ∧ Unwraps t q.ring.head ackSn t' ∧
      t ≤ t' ∧ t' ≤ q.ring.head ∧ q.ring.head ≤ (q.markCompleted k ackSn pool).2.1.ring.head ∧
      (∀ j, j ≠ k → (q.markCompleted k ackSn pool).2.1.tailList[j]? = q.tailList[j]?) ∧
      q.getMinTailIndex ≤ (q.markCompleted k ackSn pool).2.1.getMinTailIndex
  | .receive _ => True

/-- The numbers of packets have 24 bits. -/
def shortNumbers (_ : Queue) : QueueOp → Prop
  | .markCompleted _ p _ => p.sn < 2 ^ 24
  | _ => True

instance (q : Queue) : DecidablePred q.shortNumbers
  | .push .. => inferInstanceAs (Decidable True)
  | .markCompleted _ p _ => inferInstanceAs (Decidable (p.sn < 2 ^ 24))
  | .setWndSize _ => inferInstanceAs (Decidable True)

/-- Fewer than `2^24` indices are between the tails of a send queue and its `head_`. -/
def Ready : Queue → Prop
  | .send q => q.ring.Ready q.tail
  | .mcast q => q.Ready
  | .receive _ => True

theorem ready_construct {kind : QueueKind} {raw : PacketHandle} {mtu cap wnd session : Nat} {q : Queue}
    (hkind : kind ≠ .mcast 0) (h : construct kind raw mtu cap wnd session = some q) : q.Ready := by
  cases kind with
  | send =>
    obtain ⟨q, hq, rfl⟩ := Option.map_eq_some_iff.1 h
    obtain ⟨r, hr, rfl⟩ := Option.map_eq_some_iff.1 hq
    exact SendRing.Ready.construct hr
  | mcast n =>
    obtain ⟨q, hq, rfl⟩ := Option.map_eq_some_iff.1 h
    exact McastSendQueue.Ready.construct (fun h0 => hkind (h0 ▸ rfl)) hq
  | receive =>
    obtain ⟨q, -, rfl⟩ := Option.map_eq_some_iff.1 h
    trivial

theorem ready_push {q q' : Queue} {bufs : List Buffer} {pool : PacketBufferPool} {ret : Int} {sn : Nat} (h : q.Ready)
    (hp : q.push bufs pool = some (ret, sn, q')) : q'.Ready := by
  cases q with
  | send q =>
    obtain ⟨⟨ret, sn, q', pool'⟩, hq, hx⟩ := Option.map_eq_some_iff.1 hp
    cases hx
    obtain ⟨ids, s, -, -, hfill⟩ := SendQueue.push_some hq
    obtain rfl : _ = q' := congrArg (·.2.1) hfill
    exact (SendRing.Ready.pushed h s).fill (q.ring.wndSize + 1) pool
  | mcast q =>
    obtain ⟨⟨ret, sn, q', pool'⟩, hq, hx⟩ := Option.map_eq_some_iff.1 hp
    cases hx
    obtain ⟨ids, s, -, -, hfill⟩ := McastSendQueue.push_some hq
    obtain rfl : _ = q' := congrArg (·.2.1) hfill
    exact McastSendQueue.Ready.fillPrimaryQueue (q := ⟨{ q.ring with secondaryQueue := s }, q.tailList⟩)
      ⟨h.ring.pushed s, h.replicas, h.tails⟩ pool
  | receive q =>
    obtain ⟨r, -, hx⟩ := Option.map_eq_some_iff.1 hp
    cases hx
    trivial

theorem ready_markCompleted {q q' : Queue} {index : Int} {p : Packet} {pool : PacketBufferPool} (h : q.Ready)
    (hsn : p.sn < 2 ^ 24) (hm : q.markCompleted index p pool = some q') : q'.Ready := by
  cases q with
  | send q =>
    obtain rfl := Option.some.inj hm
    exact (SendRing.Ready.ack h hsn).fill (q.ring.wndSize + 1) pool
  | mcast q =>
    obtain rfl := Option.some.inj hm
    show (q.markCompleted index p.sn pool).2.1.Ready
    by_cases hindex : index < 0 ∨ (q.tailList.length : Int) ≤ index
    · -- no such replica: the call returns -1
      unfold McastSendQueue.markCompleted
      rw [if_pos hindex]
      exact h
    · obtain ⟨k, rfl⟩ := Int.eq_ofNat_of_zero_le (by omega : 0 ≤ index)
      have hk : k < q.tailList.length := by omega
      rw [McastSendQueue.markCompleted_eq hk]
      exact (McastSendQueue.Ready.acked h hk hsn).1.fillPrimaryQueue pool
  | receive q =>
    obtain ⟨r, -, hx⟩ := Option.map_eq_some_iff.1 hm
    cases hx
    trivial

theorem ready_apply {q q' : Queue} {e : QueueOp} (h : q.Ready) (hok : q.shortNumbers e) (hs : q.apply e = some q') :
    q'.Ready := by
  cases e with
  | push bufs pool =>
    obtain ⟨⟨ret, sn, q1⟩, hp, rfl⟩ := Option.map_eq_some_iff.1 hs
    exact ready_push h hp
  | markCompleted index p pool => exact ready_markCompleted h hok hs
  | setWndSize w =>
    obtain rfl := Option.some.inj hs
    cases q with
    | send q => exact SendRing.Ready.setWndSize h w
    | mcast q => exact ⟨h.ring.setWndSize w, h.replicas, h.tails⟩
    | receive q => trivial

theorem Ready.acksExactly {q : Queue} (h : q.Ready) {ackSn : Nat} (hsn : ackSn < 2 ^ 24) (pool : PacketBufferPool) :
    q.AcksExactly ackSn pool := by
  cases q with
  | send q =>
    have hunwraps := SendRing.Ready.unwraps h (le_refl q.tail) h.tailLe hsn
    have hbounds := hunwraps.bounds h.tailLe
    have hhead := (SendRing.fill_frame (ackTail q.tail q.ring.head ackSn) (q.ring.wndSize + 1) q.ring pool).2.2.2.2
    exact ⟨hunwraps, hbounds.1, hbounds.2, hhead⟩
  | mcast q =>
    intro k hk t ht
    have hget : q.tailList.getD k 0 = t := by
      rw [List.getD_eq_getElem?_getD, ht]
      rfl
    have hunwraps := McastSendQueue.Ready.unwraps h hk hsn
    rw [hget] at hunwraps
    have hbounds := hunwraps.bounds (h.tails t (List.mem_of_getElem? ht))
    have hhead := (SendRing.fill_frame (q.acked k ackSn).getMinTailIndex (q.ring.wndSize + 1) q.ring pool).2.2.2.2
    rw [McastSendQueue.markCompleted_eq hk]
    refine ⟨ackTail t q.ring.head ackSn, ?_, hunwraps, hbounds.1, hbounds.2, hhead, ?_, ?_⟩
    · show (q.tailList.set k _)[k]? = _
      rw [List.getElem?_set_self hk, hget]
    · intro j hj
      exact List.getElem?_set_ne (Ne.symm hj)
    · exact (McastSendQueue.Ready.acked h hk hsn).2
  | receive q => trivial

/-- In every state that pushes, acknowledgements and window changes lead to, an ACK with any 24-bit number moves the
tail it is for to the one index of `[tail, head_]` with that number, or leaves it where it is if there is none. -/
theorem acks_exact (kind : QueueKind) (raw : PacketHandle) (mtu cap wnd session : Nat) (hkind : kind ≠ .mcast 0)
    (q0 q : Queue) (es : List QueueOp) (h0 : construct kind raw mtu cap wnd session = some q0)
    (hrun : Runs.Run apply shortNumbers q0 es q) (ackSn : Nat) (hsn : ackSn < 2 ^ 24) (pool : PacketBufferPool) :
    q.AcksExactly ackSn pool := by
  have hready := hrun.invariant (P := Ready) (ready_construct hkind h0) fun _ _ _ h hok hs => ready_apply h hok hs
  exact hready.acksExactly hsn pool

/-- Three fragments for two replicas, and an ACK of the first two of them. -/
theorem two_fragments_acked : ∃ q0 q,
    construct (.mcast 2) ⟨0, 0, 0, 0, 0, false, false, false, none, 0, 0⟩ 50 4 2 0 = some q0 ∧
    Runs.Run apply shortNumbers q0 [.push [⟨100, 6⟩] ⟨[0, 1, 2]⟩] q ∧ q.head = 3 ∧ q.AcksExactly 2 ⟨[]⟩ := by
  obtain ⟨q0, q, h0, hrun, ht⟩ := Runs.exists_run_of_start apply shortNumbers
    (construct (.mcast 2) ⟨0, 0, 0, 0, 0, false, false, false, none, 0, 0⟩ 50 4 2 0) [.push [⟨100, 6⟩] ⟨[0, 1, 2]⟩]
    (fun q => decide (q.head = 3)) (by decide +kernel)
  exact ⟨q0, q, h0, hrun, of_decide_eq_true ht,
    acks_exact (.mcast 2) _ 50 4 2 0 (by decide) q0 q _ h0 hrun 2 (by norm_num) _⟩

end Queue

end RapidTransfer
