/-
Queues that see fewer than `2^24` fragments, so that no sequence number of theirs wraps around.
`Bounded` is what a ring and its secondary queue keep as long as every push stays below that number.
-/
import RapidTransfer.Queue.Receive

namespace RapidTransfer

/-- The fragments of a queue so far: those it has numbered, or those it has given a slot or still
holds, whichever are more. -/
def usedFragments (head : Nat) (s : SecondaryQueue) : Nat := max s.fragmentId (head + s.pending.length)

/-- The buffers can be pushed without reaching `2^24` fragments. -/
def fitsBelow (head : Nat) (s : SecondaryQueue) (bufs : List Buffer) : Bool :=
  decide (usedFragments head s + (fragments s.fragmentSize bufs).length < 2 ^ 24)

structure Bounded (head : Nat) (s : SecondaryQueue) : Prop where
  wf : s.WF ∨ (s.fragmentSize = 0 ∧ s.sliceList = [])
  loaded : head + s.pending.length < 2 ^ 24
  numbered : s.fragmentId < 2 ^ 24

namespace Bounded

variable {head : Nat} {s s' : SecondaryQueue}

theorem construct (f : Nat) : Bounded 0 (SecondaryQueue.construct f) := by
  refine ⟨?_, by simp, by simp [SecondaryQueue.construct]⟩
  rcases Nat.eq_zero_or_pos f with rfl | hf
  · exact .inr ⟨rfl, rfl⟩
  · exact .inl (SecondaryQueue.construct_wf hf)

theorem push (h : Bounded head s) {bufs : List Buffer} {ids : Nat × Nat} (hfits : fitsBelow head s bufs = true)
    (hp : s.push bufs = some (ids, s')) : Bounded head s' := by
  have hlt := of_decide_eq_true hfits
  unfold usedFragments at hlt
  obtain ⟨-, hid, hids⟩ := SecondaryQueue.push_some hp
  have hsum := SecondaryQueue.sum_countOf_le s.fragmentSize bufs
  have hnum : s'.fragmentId < 2 ^ 24 := by rw [hid, hids]; omega
  rcases h.wf with hwf | ⟨hsize, hnil⟩
  · obtain ⟨hwf', hpend⟩ := SecondaryQueue.pending_push hwf hp
    refine ⟨.inl hwf', ?_, hnum⟩
    rw [hpend, List.length_append]
    omega
  · obtain ⟨-, rfl⟩ := SecondaryQueue.push_of_size_zero hsize hp
    exact ⟨.inr ⟨hsize, hnil⟩, h.loaded, hnum⟩

/-- A fragment that is popped moves to a slot or is lost. -/
theorem pop (h : Bounded head s) (hne : s.hasRemainingFragment = true) :
    Bounded (head + 1) s.popFragment.2 ∧ Bounded head s.popFragment.2 := by
  rcases h.wf with hwf | ⟨-, hnil⟩
  · rw [SecondaryQueue.hasRemainingFragment_iff hwf.size] at hne
    obtain ⟨x, xs, hx⟩ := List.exists_cons_of_ne_nil hne
    obtain ⟨-, hwf', hpend⟩ := SecondaryQueue.popFragment_spec hwf hx
    have hl := h.loaded
    have hn := h.numbered
    rw [hx, List.length_cons] at hl
    rw [← s.popFragment_fields.1] at hn
    exact ⟨⟨.inl hwf', by rw [hpend]; omega, hn⟩, ⟨.inl hwf', by rw [hpend]; omega, hn⟩⟩
  · simp [SecondaryQueue.hasRemainingFragment, hnil] at hne

/-- The fill loop of the send queues. -/
theorem fill {r : SendRing} (h : Bounded r.head r.secondaryQueue) (tail fuel : Nat) (pool : PacketBufferPool) :
    Bounded (SendRing.fill tail fuel r pool).2.1.head (SendRing.fill tail fuel r pool).2.1.secondaryQueue := by
  refine SendRing.fill_rule (P := fun r => Bounded r.head r.secondaryQueue) ?_ ?_ fuel r pool h
  · intro r hd hd' _ _ hr hroom _ _
    exact (hr.pop (Bool.and_eq_true_iff.1 hroom).1).1
  · intro r hd _ _ hr hroom _ _
    exact (hr.pop (Bool.and_eq_true_iff.1 hroom).1).2

end Bounded

/-- A cumulative ACK keeps the tail at or below `head_`, while that has not wrapped. -/
theorem ackTail_bounds {tail head sn : Nat} (h : tail ≤ head) (hh : head < 2 ^ 24) (hsn : sn < 2 ^ 24) :
    tail ≤ ackTail tail head sn ∧ ackTail tail head sn ≤ head := by
  rw [ackTail_eq_unwrap]
  exact Serial.unwrap_bounds h (by omega) hsn

/-- An ACK moves the tail to its number if that lies in the window. -/
theorem ackTail_of_lt {tail head sn : Nat} (h : tail ≤ head) (hh : head < 2 ^ 24) :
    ackTail tail head sn = if tail ≤ sn ∧ sn ≤ head then sn else tail := by
  unfold ackTail
  rw [shortSN_of_lt (by omega), shortSN_of_lt hh]
  simp only
  split_ifs <;> omega

/-! ## The unicast send queue -/

structure SendQueue.Short (q : SendQueue) : Prop where
  bounded : Bounded q.ring.head q.ring.secondaryQueue
  tailLe : q.tail ≤ q.ring.head

namespace SendQueue.Short

variable {q q' : SendQueue}

theorem head_lt (h : q.Short) : q.ring.head < 2 ^ 24 := lt_of_le_of_lt (Nat.le_add_right _ _) h.bounded.loaded

theorem fillPrimaryQueue (h : q.Short) (pool : PacketBufferPool) : (q.fillPrimaryQueue pool).2.1.Short :=
  ⟨h.bounded.fill q.tail (q.ring.wndSize + 1) pool,
    h.tailLe.trans (SendRing.fill_frame q.tail (q.ring.wndSize + 1) q.ring pool).2.2.2.2⟩

theorem construct {raw : PacketHandle} {mtu cap wnd session : Nat}
    (h : SendQueue.construct raw mtu cap wnd session = some q) : q.Short := by
  obtain ⟨r, hr, rfl⟩ := Option.map_eq_some_iff.1 h
  unfold SendRing.construct at hr
  split at hr
  · cases hr; exact ⟨.construct _, le_refl 0⟩
  · cases hr

theorem push (h : q.Short) {bufs : List Buffer} {pool pool' : PacketBufferPool} {ret : Int} {sn : Nat}
    (hfits : fitsBelow q.ring.head q.ring.secondaryQueue bufs = true)
    (hp : q.push bufs pool = some (ret, sn, q', pool')) : q'.Short := by
  obtain ⟨ids, sq, hsq, -, hfill⟩ := SendQueue.push_some hp
  have := fillPrimaryQueue (q := { q with ring := { q.ring with secondaryQueue := sq } })
    ⟨h.bounded.push hfits hsq, h.tailLe⟩ pool
  rwa [hfill] at this

theorem markCompleted (h : q.Short) {sn : Nat} (hsn : sn < 2 ^ 24) (pool : PacketBufferPool) :
    (q.markCompleted sn pool).2.1.Short := by
  have hb := ackTail_bounds h.tailLe h.head_lt hsn
  exact fillPrimaryQueue (q := { q with tail := ackTail q.tail q.ring.head sn }) ⟨h.bounded, hb.2⟩ pool

end SendQueue.Short

/-! ## The multicast send queue -/

structure McastSendQueue.Short (q : McastSendQueue) : Prop where
  bounded : Bounded q.ring.head q.ring.secondaryQueue
  tailsLe : ∀ t ∈ q.tailList, t ≤ q.ring.head

namespace McastSendQueue.Short

variable {q q' : McastSendQueue}

theorem head_lt (h : q.Short) : q.ring.head < 2 ^ 24 := lt_of_le_of_lt (Nat.le_add_right _ _) h.bounded.loaded

theorem getD_le (h : q.Short) (k : Nat) : q.tailList.getD k 0 ≤ q.ring.head := by
  rw [List.getD_eq_getElem?_getD]
  cases hk : q.tailList[k]? with
  | none => exact Nat.zero_le _
  | some t => exact h.tailsLe t (List.mem_of_getElem? hk)

theorem fillPrimaryQueue (h : q.Short) (pool : PacketBufferPool) : (q.fillPrimaryQueue pool).2.1.Short :=
  ⟨h.bounded.fill q.getMinTailIndex (q.ring.wndSize + 1) pool, fun t ht => (h.tailsLe t ht).trans
    (SendRing.fill_frame q.getMinTailIndex (q.ring.wndSize + 1) q.ring pool).2.2.2.2⟩

theorem construct {raw : PacketHandle} {mtu cap wnd session n : Nat}
    (h : McastSendQueue.construct raw mtu cap wnd session n = some q) : q.Short := by
  obtain ⟨r, hr, rfl⟩ := Option.map_eq_some_iff.1 h
  unfold SendRing.construct at hr
  split at hr
  · cases hr
    exact ⟨.construct _, fun t ht => (List.eq_of_mem_replicate ht).le⟩
  · cases hr

theorem push (h : q.Short) {bufs : List Buffer} {pool pool' : PacketBufferPool} {ret : Int} {sn : Nat}
    (hfits : fitsBelow q.ring.head q.ring.secondaryQueue bufs = true)
    (hp : q.push bufs pool = some (ret, sn, q', pool')) : q'.Short := by
  obtain ⟨ids, sq, hsq, -, hfill⟩ := McastSendQueue.push_some hp
  have := fillPrimaryQueue (q := { q with ring := { q.ring with secondaryQueue := sq } })
    ⟨h.bounded.push hfits hsq, h.tailsLe⟩ pool
  rwa [hfill] at this

theorem markCompleted (h : q.Short) (index : Int) {sn : Nat} (hsn : sn < 2 ^ 24) (pool : PacketBufferPool) :
    (q.markCompleted index sn pool).2.1.Short := by
  unfold McastSendQueue.markCompleted
  split
  · exact h
  · refine fillPrimaryQueue
      (q := ⟨q.ring, q.tailList.set index.toNat (ackTail (q.tailList.getD index.toNat 0) q.ring.head sn)⟩)
      ⟨h.bounded, fun t ht => ?_⟩ pool
    rcases List.mem_or_eq_of_mem_set ht with ht | rfl
    · exact h.tailsLe t ht
    · exact (ackTail_bounds (h.getD_le _) h.head_lt hsn).2

/-- An ACK for one index moves that tail only, to its own number. -/
theorem markCompleted_tail (h : q.Short) {index sn i t : Nat} {pool : PacketBufferPool}
    (ht : (q.markCompleted index sn pool).2.1.tailList[i]? = some t) :
    q.tailList[i]? = some t ∨ (i = index ∧ t = sn ∧ sn ≤ q.ring.head) := by
  unfold McastSendQueue.markCompleted at ht
  split at ht
  · exact .inl ht
  · have ht : (q.tailList.set index (ackTail (q.tailList.getD index 0) q.ring.head sn))[i]? = some t := ht
    rw [ackTail_of_lt (h.getD_le _) h.head_lt, List.getElem?_set] at ht
    split at ht
    · rename_i hi
      split at ht
      · rename_i hlt
        split at ht
        · rename_i hsn; cases ht; exact .inr ⟨hi.symm, rfl, hsn.2⟩
        · cases ht
          left
          rw [← hi, List.getD_eq_getElem?_getD, List.getElem?_eq_getElem hlt]
          rfl
      · cases ht
    · exact .inl ht

end McastSendQueue.Short

/-! ## The receive queue -/

structure ReceiveQueue.Short (q : ReceiveQueue) : Prop where
  bounded : Bounded q.head q.secondaryQueue
  tailLe : q.tail ≤ q.head

namespace ReceiveQueue.Short

variable {q q' : ReceiveQueue}

theorem head_lt (h : q.Short) : q.head < 2 ^ 24 := lt_of_le_of_lt (Nat.le_add_right _ _) h.bounded.loaded

theorem fillPrimaryQueue (h : q.Short) : q.fillPrimaryQueue.Short := by
  refine ReceiveQueue.fill_rule (fun q hq hroom => ?_) (q.wndSize + 1) q h
  exact ⟨(hq.bounded.pop (Bool.and_eq_true_iff.1 hroom).1).1, Nat.le_succ_of_le hq.tailLe⟩

theorem settle (h : q.Short) : q.settle.Short := by
  refine fillPrimaryQueue (ReceiveQueue.advance_rule (fun q hq hne _ => ⟨hq.bounded, ?_⟩) (sub64 q.head q.tail) q h)
  exact Nat.lt_of_le_of_ne hq.tailLe hne

theorem construct {mtu cap wnd session : Nat} (h : ReceiveQueue.construct mtu cap wnd session = some q) : q.Short := by
  unfold ReceiveQueue.construct at h
  split at h
  · cases h; exact ⟨.construct _, le_refl 0⟩
  · cases h

theorem push (h : q.Short) {bufs : List Buffer} {ret : Int} {sn : Nat}
    (hfits : fitsBelow q.head q.secondaryQueue bufs = true) (hp : q.push bufs = some (ret, sn, q')) : q'.Short := by
  obtain ⟨ids, sq, hsq, -, -, rfl⟩ := ReceiveQueue.push_some hp
  exact fillPrimaryQueue (q := { q with secondaryQueue := sq }) ⟨h.bounded.push hfits hsq, h.tailLe⟩

theorem markCompleted (h : q.Short) {p : Packet} {mv : Option MemMove} (hm : q.markCompleted p = some (q', mv)) :
    q'.Short := by
  obtain ⟨-, rfl, -⟩ | ⟨-, -, rfl, -⟩ | ⟨-, -, -, rfl, -⟩ := ReceiveQueue.markCompleted_cases hm
  · exact h
  · exact h.settle
  · exact settle (q := q.complete p) ⟨h.bounded, h.tailLe⟩

end ReceiveQueue.Short

end RapidTransfer
