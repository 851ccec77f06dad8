/-
Slots in use. The room test of `fillPrimaryQueue` lets one more fragment through than the window has, so a
window as large as the ring overwrites the slot of `tail_` (`full_window_overwrites`). As long as every window
that is set is smaller than the ring, no more indices are live than there are slots, and the slot of a live
index is never written (`slots_kept`).
-/
import RapidTransfer.Queue.Ops

namespace RapidTransfer

/-! ## The send rings -/

/-- The live indices fit into the ring, and so will the ones the window lets in. -/
structure SendRing.Fits (tail : Nat) (r : SendRing) : Prop where
  wndCap : r.wndSize < r.queueCapacity
  wnd16 : r.wndSize < 2 ^ 16
  tailLe : tail ≤ r.head
  lenCap : r.head ≤ tail + r.queueCapacity
  len16 : r.head ≤ tail + 2 ^ 16

/-- The indices from `tail` on that were live have the slots they had. -/
structure SendRing.Kept (tail : Nat) (r r' : SendRing) : Prop where
  queueCapacity : r'.queueCapacity = r.queueCapacity
  head : r.head ≤ r'.head
  slots : Ring.Holds r'.handle r'.queueCapacity tail r'.head fun i h => i < r.head → h = r.getMutableEntry i

theorem SendRing.Kept.pushed (tail : Nat) (r : SendRing) (s : SecondaryQueue) :
    r.Kept tail { r with secondaryQueue := s } :=
  ⟨rfl, le_refl _, fun _ _ _ _ => rfl⟩

namespace SendRing.Fits

variable {tail : Nat} {r r' : SendRing}

theorem construct {raw : PacketHandle} {mtu cap wnd session : Nat} (hw : wnd < cap)
    (h : SendRing.construct raw mtu cap wnd session = some r) : r.Fits 0 := by
  unfold SendRing.construct at h
  rw [if_pos ⟨hw.le, Nat.zero_lt_of_lt hw⟩] at h
  cases h
  exact ⟨lt_of_le_of_lt (Nat.mod_le _ _) hw, Nat.mod_lt _ (by norm_num), le_refl 0, Nat.zero_le _, Nat.zero_le _⟩

theorem room (h : r.Fits tail) (hroom : r.hasRoom tail = true) :
    r.head < tail + r.queueCapacity ∧ r.head < tail + 2 ^ 16 := by
  have hw := h.wndCap
  have hw16 := h.wnd16
  have hl := h.len16
  have hle := of_decide_eq_true (Bool.and_eq_true_iff.1 hroom).2
  rw [sub64_of_le h.tailLe (by omega)] at hle
  omega

/-- The handle of `head_` is written while its slot is free. -/
theorem write (h : r'.Fits tail) (hk : r.Kept tail r') (hroom : r'.hasRoom tail = true) (x : PacketHandle) :
    Ring.Holds (Ring.set r'.handle (r'.head % r'.queueCapacity) x) r'.queueCapacity tail (r'.head + 1)
      fun i h => i < r.head → h = r.getMutableEntry i :=
  hk.slots.push (h.room hroom).1 fun hlt => absurd hlt (not_lt.2 hk.head)

theorem fill (h : r'.Fits tail) (hk : r.Kept tail r') (fuel : Nat) (pool : PacketBufferPool) :
    (fill tail fuel r' pool).2.1.Fits tail ∧ r.Kept tail (SendRing.fill tail fuel r' pool).2.1 := by
  refine fill_rule (P := fun x => x.Fits tail ∧ r.Kept tail x) ?_ ?_ fuel r' pool ⟨h, hk⟩
  · rintro x hd hd' - - ⟨hf, hk⟩ hroom - -
    obtain ⟨hlt, hlt16⟩ := hf.room hroom
    exact ⟨⟨hf.wndCap, hf.wnd16, Nat.le_succ_of_le hf.tailLe, hlt, hlt16⟩,
      ⟨hk.queueCapacity, Nat.le_succ_of_le hk.head, hf.write hk hroom _⟩⟩
  · rintro x hd - - ⟨hf, hk⟩ hroom - -
    have hw := hf.write hk hroom (x.stamp hd)
    exact ⟨⟨hf.wndCap, hf.wnd16, hf.tailLe, hf.lenCap, hf.len16⟩,
      ⟨hk.queueCapacity, hk.head, fun i h1 h2 => hw i h1 (Nat.lt_succ_of_lt h2)⟩⟩

theorem pushed (h : r.Fits tail) (s : SecondaryQueue) : Fits tail { r with secondaryQueue := s } :=
  ⟨h.wndCap, h.wnd16, h.tailLe, h.lenCap, h.len16⟩

theorem raise (h : r.Fits tail) {tail' : Nat} (h1 : tail ≤ tail') (h2 : tail' ≤ r.head) : r.Fits tail' := by
  have hl := h.lenCap
  have hl16 := h.len16
  exact ⟨h.wndCap, h.wnd16, h2, by omega, by omega⟩

theorem setWndSize (h : r.Fits tail) {w : Nat} (hw : w % 2 ^ 16 < r.queueCapacity) : (r.setWndSize w).Fits tail :=
  ⟨lt_of_le_of_lt (min_le_left _ _) hw, lt_of_le_of_lt (min_le_left _ _) (Nat.mod_lt _ (by norm_num)),
    h.tailLe, h.lenCap, h.len16⟩

/-- An ACK stays between the tail it moves and `head_`. -/
theorem ackTail_mem (h : r.Fits tail) {t sn : Nat} (h1 : tail ≤ t) (h2 : t ≤ r.head) (hsn : sn < 2 ^ 24) :
    t ≤ ackTail t r.head sn ∧ ackTail t r.head sn ≤ r.head := by
  have hl := h.len16
  rw [ackTail_eq_unwrap]
  exact Serial.unwrap_bounds h2 (by omega) hsn

end SendRing.Fits

/-! ## The receive queue -/

structure ReceiveQueue.Fits (q : ReceiveQueue) : Prop where
  wndCap : q.wndSize < q.queueCapacity
  wnd16 : q.wndSize < 2 ^ 16
  tailLe : q.tail ≤ q.head
  lenCap : q.head ≤ q.tail + q.queueCapacity
  len16 : q.head ≤ q.tail + 2 ^ 16

/-- The requests that were live and still are: `markCompleted` may have taken note that one is received. -/
structure ReceiveQueue.Kept (q q' : ReceiveQueue) : Prop where
  queueCapacity : q'.queueCapacity = q.queueCapacity
  head : q.head ≤ q'.head
  slots : Ring.Holds q'.requests q'.queueCapacity q'.tail q'.head fun i r => i < q.head →
    r.addr = (q.requests (i % q.queueCapacity)).addr ∧ r.length = (q.requests (i % q.queueCapacity)).length

namespace ReceiveQueue.Fits

variable {q q' : ReceiveQueue}

theorem construct {mtu cap wnd session : Nat} (hw : wnd < cap)
    (h : ReceiveQueue.construct mtu cap wnd session = some q) : q.Fits := by
  unfold ReceiveQueue.construct at h
  rw [if_pos ⟨hw.le, Nat.zero_lt_of_lt hw⟩] at h
  cases h
  exact ⟨lt_of_le_of_lt (Nat.mod_le _ _) hw, Nat.mod_lt _ (by norm_num), le_refl 0, Nat.zero_le _, Nat.zero_le _⟩

theorem room (h : q.Fits) (hroom : q.hasRoom = true) :
    q.head < q.tail + q.queueCapacity ∧ q.head < q.tail + 2 ^ 16 := by
  have hw := h.wndCap
  have hw16 := h.wnd16
  have hl := h.len16
  have hle := of_decide_eq_true (Bool.and_eq_true_iff.1 hroom).2
  rw [sub64_of_le h.tailLe (by omega)] at hle
  omega

/-- The next request is posted while its slot is free. -/
theorem post (h : q'.Fits) (hk : q.Kept q') (hroom : q'.hasRoom = true) : q'.post.Fits ∧ q.Kept q'.post := by
  obtain ⟨hlt, hlt16⟩ := h.room hroom
  exact ⟨⟨h.wndCap, h.wnd16, Nat.le_succ_of_le h.tailLe, hlt, hlt16⟩, hk.queueCapacity, Nat.le_succ_of_le hk.head,
    hk.slots.push hlt fun hlt => absurd hlt (not_lt.2 hk.head)⟩

theorem advance (h : q'.Fits) (hk : q.Kept q') (hne : q'.tail ≠ q'.head) :
    Fits { q' with tail := q'.tail + 1 } ∧ q.Kept { q' with tail := q'.tail + 1 } := by
  have htl := h.tailLe
  have hl := h.lenCap
  have hl16 := h.len16
  exact ⟨⟨h.wndCap, h.wnd16, by simp only; omega, by simp only; omega, by simp only; omega⟩, hk.queueCapacity, hk.head,
    hk.slots.narrow (Nat.le_succ _)⟩

theorem fillPrimaryQueue (h : q'.Fits) (hk : q.Kept q') : q'.fillPrimaryQueue.Fits ∧ q.Kept q'.fillPrimaryQueue :=
  fill_rule (P := fun x => x.Fits ∧ q.Kept x) (fun _ hx hroom => hx.1.post hx.2 hroom) (q'.wndSize + 1) q' ⟨h, hk⟩

theorem settle (h : q'.Fits) (hk : q.Kept q') : q'.settle.Fits ∧ q.Kept q'.settle := by
  have hadv := advance_rule (P := fun x => x.Fits ∧ q.Kept x) (fun _ hx hne _ => hx.1.advance hx.2 hne)
    (sub64 q'.head q'.tail) q' ⟨h, hk⟩
  exact fillPrimaryQueue hadv.1 hadv.2

theorem push (h : q.Fits) {bufs : List Buffer} {ret : Int} {sn : Nat} (hp : q.push bufs = some (ret, sn, q')) :
    q'.Fits ∧ q.Kept q' := by
  obtain ⟨ids, sq, -, -, -, rfl⟩ := push_some hp
  exact fillPrimaryQueue ⟨h.wndCap, h.wnd16, h.tailLe, h.lenCap, h.len16⟩ ⟨rfl, le_refl _, fun _ _ _ _ => ⟨rfl, rfl⟩⟩

theorem markCompleted (h : q.Fits) {p : Packet} {mv : Option MemMove} (hm : q.markCompleted p = some (q', mv)) :
    q'.Fits ∧ q.Kept q' := by
  have hsame : q.Kept q := ⟨rfl, le_refl _, fun _ _ _ _ => ⟨rfl, rfl⟩⟩
  obtain ⟨-, rfl, -⟩ | ⟨-, -, rfl, -⟩ | ⟨-, -, -, rfl, -⟩ := markCompleted_cases hm
  · exact ⟨h, hsame⟩
  · exact h.settle hsame
  · have hfits : ReceiveQueue.Fits (q.complete p) := ⟨h.wndCap, h.wnd16, h.tailLe, h.lenCap, h.len16⟩
    refine hfits.settle ⟨rfl, le_refl _, fun i _ _ _ => ?_⟩
    by_cases hi : i % q.queueCapacity = p.sn % q.queueCapacity
    · simp only [complete, hi, Ring.set_same]
      exact ⟨rfl, rfl⟩
    · simp only [complete]
      rw [Ring.set_of_ne _ _ hi]
      exact ⟨rfl, rfl⟩

theorem setWndSize (h : q.Fits) {w : Nat} (hw : w % 2 ^ 16 < q.queueCapacity) : (q.setWndSize w).Fits :=
  ⟨lt_of_le_of_lt (min_le_left _ _) hw, lt_of_le_of_lt (min_le_left _ _) (Nat.mod_lt _ (by norm_num)),
    h.tailLe, h.lenCap, h.len16⟩

end ReceiveQueue.Fits

/-! ## The multicast send queue -/

structure McastSendQueue.Fits (q : McastSendQueue) : Prop where
  ring : q.ring.Fits q.getMinTailIndex
  replicas : q.tailList ≠ []
  tails : ∀ t ∈ q.tailList, t ≤ q.ring.head

namespace McastSendQueue.Fits

variable {q : McastSendQueue}

theorem construct {raw : PacketHandle} {mtu cap wnd session n : Nat} (hw : wnd < cap)
    (hn : 0 < n) (h : McastSendQueue.construct raw mtu cap wnd session n = some q) : q.Fits := by
  obtain ⟨r, hr, rfl⟩ := Option.map_eq_some_iff.1 h
  refine ⟨?_, by simpa using hn.ne', fun t ht => ?_⟩
  · rw [getMinTailIndex_replicate r hn.ne']
    exact SendRing.Fits.construct hw hr
  · rw [List.eq_of_mem_replicate ht]
    exact Nat.zero_le _

theorem fillPrimaryQueue {r : SendRing} (h : q.Fits) (hk : r.Kept q.getMinTailIndex q.ring) (pool : PacketBufferPool) :
    (q.fillPrimaryQueue pool).2.1.Fits ∧ r.Kept q.getMinTailIndex (q.fillPrimaryQueue pool).2.1.ring := by
  obtain ⟨hf, -, hhead, -⟩ := h.ring.fill ⟨rfl, le_refl _, fun _ _ _ _ => rfl⟩ (q.ring.wndSize + 1) pool
  obtain ⟨-, hk⟩ := h.ring.fill hk (q.ring.wndSize + 1) pool
  exact ⟨⟨hf, h.replicas, fun t ht => (h.tails t ht).trans hhead⟩, hk⟩

/-- The acknowledged tail moves up, and the least one with it or not at all. -/
theorem acknowledge (h : q.Fits) {k sn : Nat} (hk : k < q.tailList.length) (hsn : sn < 2 ^ 24) :
    Fits { q with tailList := q.tailList.set k (ackTail (q.tailList.getD k 0) q.ring.head sn) } := by
  have hmem := tail_mem hk
  obtain ⟨hup, hhead⟩ := h.ring.ackTail_mem (getMinTailIndex_le hmem) (h.tails _ hmem) hsn
  obtain ⟨hne, htails, hleast, hbehind⟩ := raise_tail hk h.tails hup hhead
  exact ⟨h.ring.raise hleast hbehind, hne, htails⟩

end McastSendQueue.Fits

/-! ## Every queue -/

namespace Queue

/-- The slot of `i` is as it was. A receive queue may have marked its request as received. -/
def SameSlot : Queue → Queue → Nat → Prop
  | .send q, .send q', i => q'.ring.getMutableEntry i = q.ring.getMutableEntry i
  | .mcast q, .mcast q', i => q'.ring.getMutableEntry i = q.ring.getMutableEntry i
  | .receive q, .receive q', i =>
    (q'.requests (i % q'.queueCapacity)).addr = (q.requests (i % q.queueCapacity)).addr ∧
      (q'.requests (i % q'.queueCapacity)).length = (q.requests (i % q.queueCapacity)).length
  | _, _, _ => False

def Fits : Queue → Prop
  | .send q => q.ring.Fits q.tail
  | .mcast q => q.Fits
  | .receive q => q.Fits

def Kept : Queue → Queue → Prop
  | .send q, .send q' => q.ring.Kept q'.tail q'.ring
  | .mcast q, .mcast q' => q.ring.Kept q'.getMinTailIndex q'.ring
  | .receive q, .receive q' => q.Kept q'
  | _, _ => False

/-- Windows are smaller than the ring, and sequence numbers have 24 bits. -/
def smallWindow (q : Queue) : QueueOp → Prop
  | .push .. => True
  | .markCompleted _ p _ => p.sn < 2 ^ 24
  | .setWndSize w => w % 2 ^ 16 < q.queueCapacity

instance (q : Queue) : DecidablePred q.smallWindow
  | .push .. => inferInstanceAs (Decidable True)
  | .markCompleted _ p _ => inferInstanceAs (Decidable (p.sn < 2 ^ 24))
  | .setWndSize w => inferInstanceAs (Decidable (w % 2 ^ 16 < q.queueCapacity))

theorem Fits.bounds {q : Queue} (h : q.Fits) : q.tail ≤ q.head ∧ q.head ≤ q.tail + q.queueCapacity := by
  cases q with
  | send q => exact ⟨h.tailLe, h.lenCap⟩
  | mcast q => exact ⟨h.ring.tailLe, h.ring.lenCap⟩
  | receive q => exact ⟨h.tailLe, h.lenCap⟩

theorem Kept.sameSlot {q q' : Queue} (h : q.Kept q') {i : Nat} (h1 : q'.tail ≤ i) (h2 : i < q.head) :
    q.SameSlot q' i := by
  match q, q', h with
  | .send _, .send _, h => exact h.slots i h1 (h2.trans_le h.head) h2
  | .mcast _, .mcast _, h => exact h.slots i h1 (h2.trans_le h.head) h2
  | .receive _, .receive _, h => exact h.slots i h1 (h2.trans_le h.head) h2

theorem Kept.queueCapacity {q q' : Queue} (h : q.Kept q') : q'.queueCapacity = q.queueCapacity := by
  match q, q', h with
  | .send _, .send _, h => exact SendRing.Kept.queueCapacity h
  | .mcast _, .mcast _, h => exact SendRing.Kept.queueCapacity h
  | .receive _, .receive _, h => exact ReceiveQueue.Kept.queueCapacity h

theorem fits_construct {kind : QueueKind} {raw : PacketHandle} {mtu cap wnd session : Nat} {q : Queue}
    (hkind : kind ≠ .mcast 0) (hw : wnd < cap)
    (h : construct kind raw mtu cap wnd session = some q) : q.Fits := by
  cases kind with
  | send =>
    obtain ⟨q, hq, rfl⟩ := Option.map_eq_some_iff.1 h
    obtain ⟨r, hr, rfl⟩ := Option.map_eq_some_iff.1 hq
    exact SendRing.Fits.construct hw hr
  | mcast n =>
    obtain ⟨q, hq, rfl⟩ := Option.map_eq_some_iff.1 h
    exact McastSendQueue.Fits.construct hw (Nat.pos_of_ne_zero fun h0 => hkind (h0 ▸ rfl)) hq
  | receive =>
    obtain ⟨q, hq, rfl⟩ := Option.map_eq_some_iff.1 h
    exact ReceiveQueue.Fits.construct hw hq

theorem fits_push {q q' : Queue} {bufs : List Buffer} {pool : PacketBufferPool} {ret : Int} {sn : Nat} (h : q.Fits)
    (hp : q.push bufs pool = some (ret, sn, q')) : q'.Fits ∧ q.Kept q' := by
  cases q with
  | send q =>
    obtain ⟨⟨ret, sn, q', pool'⟩, hq, hx⟩ := Option.map_eq_some_iff.1 hp
    cases hx
    obtain ⟨ids, s, -, -, hfill⟩ := SendQueue.push_some hq
    obtain rfl : _ = q' := congrArg (·.2.1) hfill
    exact (SendRing.Fits.pushed h s).fill (.pushed q.tail q.ring s) (q.ring.wndSize + 1) pool
  | mcast q =>
    obtain ⟨⟨ret, sn, q', pool'⟩, hq, hx⟩ := Option.map_eq_some_iff.1 hp
    cases hx
    obtain ⟨ids, s, -, -, hfill⟩ := McastSendQueue.push_some hq
    obtain rfl : _ = q' := congrArg (·.2.1) hfill
    exact McastSendQueue.Fits.fillPrimaryQueue (q := ⟨{ q.ring with secondaryQueue := s }, q.tailList⟩)
      ⟨h.ring.pushed s, h.replicas, h.tails⟩ (.pushed _ q.ring s) pool
  | receive q =>
    obtain ⟨⟨ret, sn, q'⟩, hq, hx⟩ := Option.map_eq_some_iff.1 hp
    cases hx
    exact ReceiveQueue.Fits.push h hq

theorem fits_markCompleted {q q' : Queue} {index : Int} {p : Packet} {pool : PacketBufferPool} (h : q.Fits)
    (hsn : p.sn < 2 ^ 24) (hm : q.markCompleted index p pool = some q') : q'.Fits ∧ q.Kept q' := by
  cases q with
  | send q =>
    obtain rfl := Option.some.inj hm
    obtain ⟨hup, hhead⟩ := h.ackTail_mem (le_refl q.tail) h.tailLe hsn
    simp only [Fits, Kept, SendQueue.markCompleted]
    exact (SendRing.Fits.raise h hup hhead).fill ⟨rfl, le_refl _, fun _ _ _ _ => rfl⟩ (q.ring.wndSize + 1) pool
  | mcast q =>
    obtain rfl := Option.some.inj hm
    simp only [Fits, Kept, McastSendQueue.markCompleted]
    split
    · exact ⟨h, rfl, le_refl _, fun _ _ _ _ => rfl⟩
    · rename_i hindex
      exact (McastSendQueue.Fits.acknowledge h (by omega) hsn).fillPrimaryQueue
        ⟨rfl, le_refl _, fun _ _ _ _ => rfl⟩ pool
  | receive q =>
    obtain ⟨⟨q1, mv⟩, hq, rfl⟩ := Option.map_eq_some_iff.1 hm
    exact ReceiveQueue.Fits.markCompleted h hq

theorem fits_setWndSize {q : Queue} {w : Nat} (h : q.Fits) (hw : w % 2 ^ 16 < q.queueCapacity) :
    (q.setWndSize w).Fits ∧ q.Kept (q.setWndSize w) := by
  cases q with
  | send q => exact ⟨SendRing.Fits.setWndSize h hw, rfl, le_refl _, fun _ _ _ _ => rfl⟩
  | mcast q => exact ⟨⟨h.ring.setWndSize hw, h.replicas, h.tails⟩, rfl, le_refl _, fun _ _ _ _ => rfl⟩
  | receive q => exact ⟨ReceiveQueue.Fits.setWndSize h hw, rfl, le_refl _, fun _ _ _ _ => ⟨rfl, rfl⟩⟩

theorem fits_apply {q q' : Queue} {e : QueueOp} (h : q.Fits) (hok : q.smallWindow e) (hs : q.apply e = some q') :
    q'.Fits ∧ q.Kept q' := by
  cases e with
  | push bufs pool =>
    obtain ⟨⟨ret, sn, q1⟩, hp, rfl⟩ := Option.map_eq_some_iff.1 hs
    exact fits_push h hp
  | markCompleted index p pool => exact fits_markCompleted h hok hs
  | setWndSize w =>
    cases hs
    exact fits_setWndSize h hok

/-- While every window is smaller than the ring, no more indices are live than the ring has slots, and no call
writes the slot of an index that is live after it. -/
theorem slots_kept (kind : QueueKind) (raw : PacketHandle) (mtu cap wnd session : Nat) (hkind : kind ≠ .mcast 0)
    (hw : wnd < cap) (q0 q : Queue) (es : List QueueOp)
    (h0 : construct kind raw mtu cap wnd session = some q0) (hrun : Runs.Run apply smallWindow q0 es q) :
    q.tail ≤ q.head ∧ q.head ≤ q.tail + q.queueCapacity ∧
    ∀ e q', q.smallWindow e → q.apply e = some q' → ∀ i, q'.tail ≤ i → i < q.head → q.SameSlot q' i := by
  have hfits := hrun.invariant (P := Fits) (fits_construct hkind hw h0)
    fun _ _ _ h hok hs => (fits_apply h hok hs).1
  refine ⟨hfits.bounds.1, hfits.bounds.2, ?_⟩
  intro e q' hok hs i h1 h2
  exact (fits_apply hfits hok hs).2.sameSlot h1 h2

/-- A send queue with fragments of two bytes. -/
def twoByteQueue (cap wnd : Nat) : Option Queue :=
  construct .send ⟨0, 0, 0, 0, 0, false, false, false, none, 0, 0⟩ 50 cap wnd 0

/-- The one slot of a ring of capacity one gets two fragments: the second takes the place of the first, which is
still to be acknowledged. -/
theorem full_window_overwrites : ∃ q0 q, twoByteQueue 1 1 = some q0 ∧
    Runs.Run apply (fun _ _ => True) q0 [.push [⟨100, 4⟩] ⟨[0, 1]⟩] (.send q) ∧
    q.tail = 0 ∧ q.ring.head = 2 ∧ q.ring.queueCapacity = 1 ∧ (q.ring.getMutableEntry q.tail).sn = 1 := by
  obtain ⟨q0, q, h0, hrun, ht⟩ := Runs.exists_run_of_start apply (fun _ _ => True) (twoByteQueue 1 1)
    [.push [⟨100, 4⟩] ⟨[0, 1]⟩]
    (fun q => match q with
      | .send q => decide (q.tail = 0 ∧ q.ring.head = 2 ∧ q.ring.queueCapacity = 1 ∧
          (q.ring.getMutableEntry q.tail).sn = 1)
      | _ => false) (by decide +kernel)
  cases q with
  | send q => exact ⟨q0, q, h0, hrun, of_decide_eq_true ht⟩
  | mcast => cases ht
  | receive => cases ht

/-- The ring of two slots with a window of one, after a push of six bytes and an acknowledgement. -/
theorem two_slots_kept : ∃ q0 q, twoByteQueue 2 1 = some q0 ∧
    Runs.Run apply smallWindow q0 [.push [⟨100, 6⟩] ⟨[0, 1, 2]⟩] q ∧ q.tail = 0 ∧ q.head = 2 ∧
    q.head ≤ q.tail + q.queueCapacity ∧
    ∃ q', q.apply (.markCompleted (-1) ⟨0, 0, 0, 1, 0, false, []⟩ ⟨[2]⟩) = some q' ∧ q'.tail = 1 ∧ q.SameSlot q' 1 := by
  obtain ⟨q0, q, h0, hrun, ht⟩ := Runs.exists_run_of_start apply smallWindow (twoByteQueue 2 1)
    [.push [⟨100, 6⟩] ⟨[0, 1, 2]⟩]
    (fun q => decide (q.tail = 0 ∧ q.head = 2) &&
      (q.apply (.markCompleted (-1) ⟨0, 0, 0, 1, 0, false, []⟩ ⟨[2]⟩)).any fun q' : Queue => decide (q'.tail = 1))
    (by decide +kernel)
  obtain ⟨h1, h2⟩ := Bool.and_eq_true_iff.1 ht
  obtain ⟨htail, hhead⟩ := of_decide_eq_true h1
  obtain ⟨q', hq', htail'⟩ := (Option.any_eq_true _ _).1 h2
  have htail' : q'.tail = 1 := of_decide_eq_true htail'
  obtain ⟨-, hlen, hslots⟩ := slots_kept .send _ 50 2 1 0 (by decide) (by decide) q0 q _ h0 hrun
  exact ⟨q0, q, h0, hrun, htail, hhead, hlen, q', hq', htail', hslots _ q' (by simp [smallWindow]) hq' 1 (by omega)
    (by omega)⟩

end Queue

end RapidTransfer
