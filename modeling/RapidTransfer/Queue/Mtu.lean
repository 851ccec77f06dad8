/-
Packets and the size of their buffers. A queue cuts what is pushed into fragments of `mtu_size - sizeof(PktHdr) - 40`
bytes, an unsigned difference of a number that nobody checks. Above 48 every fragment leaves room for the headers and
none of a buffer with something in it is empty. At 48 the first push divides by zero, and below 48 the difference wraps
around and a buffer goes out in one piece, however long it is.
-/
import RapidTransfer.Queue.Ops

namespace RapidTransfer

/-- The bytes of a packet that are no payload. -/
theorem fragmentSizeOf_eq {mtuSize : Nat} (hlt : mtuSize < 2 ^ 64) :
    fragmentSizeOf mtuSize = if 48 ≤ mtuSize then mtuSize - 48 else 2 ^ 64 - (48 - mtuSize) := by
  unfold fragmentSizeOf sub64 pktHdrSize grhSize
  split <;> omega

/-! ## The fragments of a secondary queue -/

namespace SecondaryQueue

/-- Every fragment that is going to be popped leaves room for the headers and is not empty unless its buffer is, and
there are finitely many of them. -/
structure Fits (s : SecondaryQueue) (mtuSize : Nat) : Prop where
  fragment : ∀ n slice rest, ((·.popFragment.2)^[n] s).sliceList = slice :: rest →
    pktHdrSize + grhSize + ((·.popFragment.2)^[n] s).popFragment.1.length ≤ mtuSize ∧
      (slice.length ≠ 0 → 1 ≤ ((·.popFragment.2)^[n] s).popFragment.1.length)
  ends : ∃ n, ((·.popFragment.2)^[n] s).hasRemainingFragment = false

theorem popFragment_length {s : SecondaryQueue} {slice : Buffer} {rest : List Buffer}
    (h : s.sliceList = slice :: rest) : s.popFragment.1.length = min s.fragmentSize (slice.length - s.offset) := by
  unfold popFragment
  rw [h]
  simp only
  split <;> rfl

theorem WF.pop {s : SecondaryQueue} (h : s.WF) : s.popFragment.2.WF := by
  cases hp : s.pending with
  | nil =>
    have hnil : s.sliceList = [] := by
      by_contra hne
      exact (hasRemainingFragment_iff h.size).1 (by simp [hasRemainingFragment, hne]) hp
    rw [popFragment, hnil]
    exact h
  | cons x xs => exact (popFragment_spec h hp).2.1

theorem WF.iterate {s : SecondaryQueue} (h : s.WF) (n : Nat) :
    ((·.popFragment.2)^[n] s).WF ∧ ((·.popFragment.2)^[n] s).fragmentSize = s.fragmentSize := by
  induction n with
  | zero => exact ⟨h, rfl⟩
  | succ n ih =>
    rw [Function.iterate_succ_apply']
    exact ⟨ih.1.pop, (popFragment_fields _).2.trans ih.2⟩

theorem exists_slice {s : SecondaryQueue} (h : s.hasRemainingFragment = true) :
    ∃ slice rest, s.sliceList = slice :: rest :=
  List.exists_cons_of_ne_nil (by simpa [hasRemainingFragment] using h)

/-- The next fragment: not longer than the fragment size, and not empty unless the buffer is. -/
theorem WF.next {s : SecondaryQueue} (h : s.WF) {slice : Buffer} {rest : List Buffer}
    (hs : s.sliceList = slice :: rest) :
    s.popFragment.1.length ≤ s.fragmentSize ∧ (slice.length ≠ 0 → 1 ≤ s.popFragment.1.length) := by
  have hsize := h.size
  have hoff : slice.length ≠ 0 → s.offset < slice.length := by
    intro hne
    rcases h.offset with h0 | ⟨slice', rest', hs', hlt⟩
    · omega
    · rw [hs] at hs'
      cases hs'
      exact hlt
  rw [popFragment_length hs]
  constructor
  · exact min_le_left _ _
  · intro hne
    have := hoff hne
    omega

theorem WF.fits {s : SecondaryQueue} (h : s.WF) {mtuSize : Nat}
    (hsize : pktHdrSize + grhSize + s.fragmentSize ≤ mtuSize) : s.Fits mtuSize where
  fragment := by
    intro n slice rest hs
    obtain ⟨hwf, hsame⟩ := h.iterate n
    obtain ⟨hle, hpos⟩ := hwf.next hs
    rw [hsame] at hle
    exact ⟨by omega, hpos⟩
  ends := by
    refine ⟨s.pending.length, ?_⟩
    rw [← Bool.not_eq_true, hasRemainingFragment_iterate _ s h]
    exact lt_irrefl _

end SecondaryQueue

/-! ## The slots of a send queue -/

namespace SendRing

/-- The fragments leave room for the headers, and so do the payloads in the slots that have been filled. -/
structure Bounded (r : SendRing) (mtuSize : Nat) : Prop where
  wf : r.secondaryQueue.WF
  size : pktHdrSize + grhSize + r.secondaryQueue.fragmentSize ≤ mtuSize
  slots : ∀ i < r.head, pktHdrSize + grhSize + (r.getMutableEntry i).dataLen ≤ mtuSize

theorem claimBuffer_dataLen {h h' : PacketHandle} {pool pool' : PacketBufferPool}
    (hc : claimBuffer h pool = some (h', pool')) : h' = h ∨ h'.dataLen = 0 := by
  unfold claimBuffer at hc
  split at hc
  · cases hc
    exact .inl rfl
  · obtain ⟨slot, rfl⟩ := PacketBufferPool.allocatePacket_some hc
    exact .inr rfl

theorem fill_bounded {mtuSize : Nat} (tail fuel : Nat) {r : SendRing} (pool : PacketBufferPool)
    (h : r.Bounded mtuSize) : (fill tail fuel r pool).2.1.Bounded mtuSize := by
  refine fill_rule (P := fun r => r.Bounded mtuSize) ?_ ?_ fuel r pool h
  · rintro r hd hd' - - ⟨hwf, hsize, hslots⟩ hroom - hload
    obtain ⟨slice, rest, hs⟩ := SecondaryQueue.exists_slice (Bool.and_eq_true_iff.1 hroom).1
    have hnext := (hwf.next hs).1
    have hlen : hd'.dataLen ≤ r.secondaryQueue.popFragment.1.length := by
      rw [load_eq hload]
      exact Nat.mod_le _ _
    refine ⟨hwf.pop, (r.secondaryQueue.popFragment_fields.2).symm ▸ hsize, ?_⟩
    refine Ring.forall_push (P := fun h : PacketHandle => pktHdrSize + grhSize + h.dataLen ≤ mtuSize) hslots ?_
    dsimp only
    omega
  · rintro r hd pool pool' ⟨hwf, hsize, hslots⟩ - hclaim -
    refine ⟨hwf.pop, (r.secondaryQueue.popFragment_fields.2).symm ▸ hsize, ?_⟩
    refine Ring.forall_set (P := fun h : PacketHandle => pktHdrSize + grhSize + h.dataLen ≤ mtuSize) hslots
      fun hold => ?_
    -- the slot keeps the payload it had, or it is a new packet without any
    show pktHdrSize + grhSize + hd.dataLen ≤ mtuSize
    rcases claimBuffer_dataLen hclaim with rfl | hzero
    · exact hold
    · omega

end SendRing

/-! ## All queues -/

namespace Queue

/-- The payload of the packet in a slot; in a receive queue, the room that is posted for one. -/
def slotLength (q : Queue) (index : Nat) : Nat :=
  match q with
  | .send q => (q.ring.getMutableEntry index).dataLen
  | .mcast q => (q.ring.getMutableEntry index).dataLen
  | .receive q => (q.requests (index % q.queueCapacity)).length

/-- Pushing divides by no zero, the fragments that wait fit, those of a push do so too, and so do all packets in the
slots that have been filled. -/
structure FitsMtu (q : Queue) (mtuSize : Nat) : Prop where
  push : ∀ bufs pool, q.push bufs pool ≠ none
  waiting : q.secondaryQueue.Fits mtuSize
  pushed : ∀ bufs ids s, q.secondaryQueue.push bufs = some (ids, s) → s.Fits mtuSize
  slots : ∀ i < q.head, pktHdrSize + grhSize + q.slotLength i ≤ mtuSize

theorem push_ne_none_iff {q : Queue} {bufs : List Buffer} {pool : PacketBufferPool} :
    q.push bufs pool ≠ none ↔ q.secondaryQueue.push bufs ≠ none := by
  cases q with
  | send q =>
    unfold Queue.push SendQueue.push
    simp only [secondaryQueue]
    cases q.ring.secondaryQueue.push bufs <;> simp
  | mcast q =>
    unfold Queue.push McastSendQueue.push
    simp only [secondaryQueue]
    cases q.ring.secondaryQueue.push bufs <;> simp
  | receive q =>
    unfold Queue.push ReceiveQueue.push
    simp only [secondaryQueue]
    cases q.secondaryQueue.push bufs <;> simp

/-- What is kept along a run. -/
structure Bounded (q : Queue) (mtuSize : Nat) : Prop where
  wf : q.secondaryQueue.WF
  size : pktHdrSize + grhSize + q.secondaryQueue.fragmentSize ≤ mtuSize
  slots : ∀ i < q.head, pktHdrSize + grhSize + q.slotLength i ≤ mtuSize

section run

variable {mtuSize : Nat}

theorem receiveFill_bounded {q : ReceiveQueue} (h : (receive q).Bounded mtuSize) :
    (receive q.fillPrimaryQueue).Bounded mtuSize := by
  refine ReceiveQueue.fill_rule (P := fun q => (receive q).Bounded mtuSize) ?_ _ q h
  rintro q ⟨hwf, hsize, hslots⟩ hroom
  obtain ⟨slice, rest, hs⟩ := SecondaryQueue.exists_slice (Bool.and_eq_true_iff.1 hroom).1
  have hnext := (hwf.next hs).1
  refine ⟨hwf.pop, (q.secondaryQueue.popFragment_fields.2).symm ▸ hsize, ?_⟩
  refine Ring.forall_push (P := fun r : RecvRequest => pktHdrSize + grhSize + r.length ≤ mtuSize) hslots ?_
  have hsize : pktHdrSize + grhSize + q.secondaryQueue.fragmentSize ≤ mtuSize := hsize
  have hnext : q.secondaryQueue.popFragment.1.length ≤ q.secondaryQueue.fragmentSize := hnext
  dsimp only
  omega

theorem settle_bounded {q : ReceiveQueue} (h : (receive q).Bounded mtuSize) : (receive q.settle).Bounded mtuSize := by
  apply receiveFill_bounded
  refine ReceiveQueue.advance_rule (P := fun q => (receive q).Bounded mtuSize) ?_ _ q h
  rintro q ⟨hwf, hsize, hslots⟩ - -
  exact ⟨hwf, hsize, hslots⟩

theorem Bounded.push {q q' : Queue}
    (h : q.Bounded mtuSize) {bufs : List Buffer} {pool : PacketBufferPool} {ret : Int} {sn : Nat}
    (hp : q.push bufs pool = some (ret, sn, q')) : q'.Bounded mtuSize := by
  obtain ⟨hwf, hsize, hslots⟩ := h
  have hpushed : ∀ {ids s}, q.secondaryQueue.push bufs = some (ids, s) →
      s.WF ∧ pktHdrSize + grhSize + s.fragmentSize ≤ mtuSize := by
    intro ids s hs
    refine ⟨(SecondaryQueue.pending_push hwf hs).1, ?_⟩
    rw [(SecondaryQueue.push_some hs).1]
    exact hsize
  cases q with
  | send q =>
    obtain ⟨⟨ret, sn, q', pool'⟩, hq, hx⟩ := Option.map_eq_some_iff.1 hp
    cases hx
    obtain ⟨ids, s, hs, -, hfill⟩ := SendQueue.push_some hq
    obtain ⟨hwf, hsize, hslots⟩ := SendRing.fill_bounded q.tail (q.ring.wndSize + 1)
      (r := { q.ring with secondaryQueue := s }) pool ⟨(hpushed hs).1, (hpushed hs).2, hslots⟩
    cases hfill
    exact ⟨hwf, hsize, hslots⟩
  | mcast q =>
    obtain ⟨⟨ret, sn, q', pool'⟩, hq, hx⟩ := Option.map_eq_some_iff.1 hp
    cases hx
    obtain ⟨ids, s, hs, -, hfill⟩ := McastSendQueue.push_some hq
    obtain ⟨hwf, hsize, hslots⟩ := SendRing.fill_bounded q.getMinTailIndex (q.ring.wndSize + 1)
      (r := { q.ring with secondaryQueue := s }) pool ⟨(hpushed hs).1, (hpushed hs).2, hslots⟩
    cases hfill
    exact ⟨hwf, hsize, hslots⟩
  | receive q =>
    obtain ⟨⟨ret, sn, q'⟩, hq, hx⟩ := Option.map_eq_some_iff.1 hp
    cases hx
    obtain ⟨ids, s, hs, -, -, rfl⟩ := ReceiveQueue.push_some hq
    exact receiveFill_bounded ⟨(hpushed hs).1, (hpushed hs).2, hslots⟩

theorem Bounded.markCompleted {q q' : Queue}
    (h : q.Bounded mtuSize) {index : Int} {p : Packet} {pool : PacketBufferPool}
    (hm : q.markCompleted index p pool = some q') : q'.Bounded mtuSize := by
  obtain ⟨hwf, hsize, hslots⟩ := h
  cases q with
  | send q =>
    obtain rfl := Option.some.inj hm
    obtain ⟨hwf, hsize, hslots⟩ := SendRing.fill_bounded (ackTail q.tail q.ring.head p.sn) (q.ring.wndSize + 1)
      (r := q.ring) pool ⟨hwf, hsize, hslots⟩
    exact ⟨hwf, hsize, hslots⟩
  | mcast q =>
    obtain rfl := Option.some.inj hm
    unfold McastSendQueue.markCompleted
    split
    · exact ⟨hwf, hsize, hslots⟩
    · obtain ⟨hwf, hsize, hslots⟩ :=
        SendRing.fill_bounded _ (q.ring.wndSize + 1) (r := q.ring) pool ⟨hwf, hsize, hslots⟩
      exact ⟨hwf, hsize, hslots⟩
  | receive q =>
    obtain ⟨⟨q1, mv⟩, hq, rfl⟩ := Option.map_eq_some_iff.1 hm
    obtain ⟨-, rfl, -⟩ | ⟨-, -, rfl, -⟩ | ⟨-, -, -, rfl, -⟩ := ReceiveQueue.markCompleted_cases hq
    · exact ⟨hwf, hsize, hslots⟩
    · exact settle_bounded ⟨hwf, hsize, hslots⟩
    · refine settle_bounded ⟨hwf, hsize, ?_⟩
      exact Ring.forall_set (P := fun r : RecvRequest => pktHdrSize + grhSize + r.length ≤ mtuSize) hslots
        fun hold => hold

theorem Bounded.apply {q q' : Queue} (h : q.Bounded mtuSize) {op : QueueOp} (ha : q.apply op = some q') :
    q'.Bounded mtuSize := by
  cases op with
  | push bufs pool =>
    obtain ⟨⟨ret, sn, q1⟩, hp, rfl⟩ := Option.map_eq_some_iff.1 ha
    exact h.push hp
  | markCompleted index p pool => exact h.markCompleted ha
  | setWndSize w =>
    obtain rfl := Option.some.inj ha
    obtain ⟨hwf, hsize, hslots⟩ := h
    cases q with
    | send q => exact ⟨hwf, hsize, hslots⟩
    | mcast q => exact ⟨hwf, hsize, hslots⟩
    | receive q => exact ⟨hwf, hsize, hslots⟩

theorem Bounded.construct {kind : QueueKind} {raw : PacketHandle} {queueCapacity wndSize session : Nat} {q : Queue}
    (h : construct kind raw mtuSize queueCapacity wndSize session = some q) (hlt : mtuSize < 2 ^ 64)
    (hroom : 48 < mtuSize) : q.Bounded mtuSize := by
  have hsize := fragmentSizeOf_eq hlt
  rw [if_pos hroom.le] at hsize
  obtain ⟨hhead, hs⟩ := construct_start h
  refine ⟨?_, ?_, ?_⟩
  · rw [hs]
    exact SecondaryQueue.construct_wf (by omega)
  · rw [hs]
    show pktHdrSize + grhSize + fragmentSizeOf mtuSize ≤ mtuSize
    rw [hsize, pktHdrSize, grhSize]
    omega
  · rw [hhead]
    rintro i ⟨⟩

theorem Bounded.fits {q : Queue} (h : q.Bounded mtuSize) : q.FitsMtu mtuSize where
  push := by
    intro bufs pool
    rw [push_ne_none_iff, SecondaryQueue.push_eq h.wf.size]
    exact Option.some_ne_none _
  waiting := h.wf.fits h.size
  pushed := by
    intro bufs ids s hs
    refine (SecondaryQueue.pending_push h.wf hs).1.fits ?_
    rw [(SecondaryQueue.push_some hs).1]
    exact h.size
  slots := h.slots

end run

/-- A fresh queue does not survive a push of one byte if the packets have no room for it. -/
theorem not_fits_of_le {q : Queue} {mtuSize : Nat}
    (hs : q.secondaryQueue = SecondaryQueue.construct (fragmentSizeOf mtuSize))
    (hle : mtuSize ≤ 48) : ¬ q.FitsMtu mtuSize := by
  have hsize := @fragmentSizeOf_eq mtuSize (by omega)
  intro hfits
  by_cases h48 : mtuSize = 48
  · -- the division by zero
    refine push_ne_none_iff.1 (hfits.push [⟨1, 1⟩] ⟨[]⟩) ?_
    rw [hs, h48]
    rfl
  · -- the fragment is as long as the buffer
    rw [if_neg (by omega)] at hsize
    have hpos : 0 < q.secondaryQueue.fragmentSize := by
      rw [hs]
      show 0 < fragmentSizeOf mtuSize
      omega
    have hfragment := ((hfits.pushed [⟨1, 1⟩] _ _ (SecondaryQueue.push_eq hpos _)).fragment 0 ⟨1, 1⟩ []
      (by rw [hs]; rfl)).1
    have hheaders : 48 ≤ mtuSize := (Nat.le_add_right (pktHdrSize + grhSize) _).trans hfragment
    omega

/-- In every run of a queue everything fits, exactly when the packets have more than 48 bytes. -/
theorem packets_fit_iff (kind : QueueKind) (raw : PacketHandle) (mtuSize : UInt64) (queueCapacity wndSize session : Nat)
    (q0 : Queue) (h0 : construct kind raw mtuSize.toNat queueCapacity wndSize session = some q0) :
    (∀ ops q, Runs.Run apply (fun _ _ => True) q0 ops q → q.FitsMtu mtuSize.toNat) ↔ 48 < mtuSize.toNat := by
  constructor
  · intro h
    by_contra hle
    exact not_fits_of_le (construct_start h0).2 (by omega) (h [] q0 .nil)
  · intro hroom ops q hrun
    refine (hrun.invariant (P := fun q : Queue => q.Bounded mtuSize.toNat)
      (.construct h0 mtuSize.toNat_lt hroom) ?_).fits
    exact fun _ _ _ hq _ ha => hq.apply ha

/-- Packets of 48 bytes stop the first push; those of 47 bytes get a payload of any length. -/
theorem packet_overruns : ∃ q0 q1 q2 ret sn,
    construct .send (PacketHandle.setRawPacket none false) 48 4 2 0 = some q0 ∧ q0.push [⟨100, 1⟩] ⟨[0]⟩ = none ∧
    construct .send (PacketHandle.setRawPacket none false) 47 4 2 0 = some q1 ∧
    q1.push [⟨100, 5000⟩] ⟨[0]⟩ = some (ret, sn, q2) ∧ q2.head = 1 ∧ q2.slotLength 0 = 5000 := by
  refine ⟨_, _, _, _, _, rfl, ?_, rfl, rfl, ?_, ?_⟩
  · decide +kernel
  · decide +kernel
  · decide +kernel

/-- Packets of 50 bytes: every queue of them fits, whatever is done with it. -/
theorem packets_of_fifty_fit : ∃ q0, construct .send (PacketHandle.setRawPacket none false) 50 4 2 0 = some q0 ∧
    ∀ ops q, Runs.Run apply (fun _ _ => True) q0 ops q → q.FitsMtu 50 := by
  obtain ⟨q0, h0⟩ : ∃ q0, construct .send (PacketHandle.setRawPacket none false) 50 4 2 0 = some q0 := ⟨_, rfl⟩
  exact ⟨q0, h0, (packets_fit_iff .send _ 50 4 2 0 q0 h0).2 (by decide)⟩

end Queue

end RapidTransfer
