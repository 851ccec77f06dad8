/-
A send ring whose packets can be sent: every index below `head_` has a packet buffer in its slot, and
the live range exceeds the ring by at most the one fragment that the room test lets through.
-/
import RapidTransfer.Queue.Send

namespace RapidTransfer

structure SendRing.Ready (tail : Nat) (r : SendRing) : Prop where
  owned : ∀ i < r.head, (r.getMutableEntry i).packetBuf.isSome = true
  noGrh : ∀ k, (r.handle k).packetBuf.isSome = true → (r.handle k).withGrh = false
  wndCap : r.wndSize ≤ r.queueCapacity
  wnd16 : r.wndSize < 2 ^ 16
  tailLe : tail ≤ r.head
  lenCap : r.head ≤ tail + r.queueCapacity + 1
  len16 : r.head ≤ tail + 2 ^ 16

namespace SendRing

/-- A claimed handle has a buffer, without room for a GRH if the slot's own had none. -/
theorem claimBuffer_noGrh {h h' : PacketHandle} {p p' : PacketBufferPool} (hc : claimBuffer h p = some (h', p'))
    (hg : h.packetBuf.isSome = true → h.withGrh = false) : h'.withGrh = false := by
  unfold claimBuffer at hc
  split at hc
  · rename_i hb; cases hc; exact hg hb
  · obtain ⟨slot, rfl⟩ := PacketBufferPool.allocatePacket_some hc; rfl

namespace Ready

variable {tail : Nat} {r : SendRing}

theorem construct {raw : PacketHandle} {mtu cap wnd session : Nat}
    (h : SendRing.construct raw mtu cap wnd session = some r) : Ready 0 r := by
  unfold SendRing.construct at h
  split at h
  · rename_i hw
    cases h
    refine ⟨fun i hi => absurd hi (Nat.not_lt_zero i), fun k hk => ?_, (Nat.mod_le _ _).trans hw.1,
      Nat.mod_lt _ (by norm_num), le_refl 0, Nat.zero_le _, Nat.zero_le _⟩
    simp [PacketHandle.construct] at hk
  · cases h

/-- A handle with a buffer goes into the slot of `head_`. -/
theorem set (h : Ready tail r) {x : PacketHandle} (hb : x.packetBuf.isSome = true) (hg : x.withGrh = false) :
    (∀ i < r.head + 1, (Ring.set r.handle (r.head % r.queueCapacity) x (i % r.queueCapacity)).packetBuf.isSome = true) ∧
    ∀ k, (Ring.set r.handle (r.head % r.queueCapacity) x k).packetBuf.isSome = true →
      (Ring.set r.handle (r.head % r.queueCapacity) x k).withGrh = false := by
  constructor
  · intro i hi
    by_cases hs : i % r.queueCapacity = r.head % r.queueCapacity
    · rw [hs, Ring.set_same]; exact hb
    · rw [Ring.set_of_ne _ _ hs]
      exact h.owned i (Nat.lt_of_le_of_ne (Nat.le_of_lt_succ hi) fun he => hs (by rw [he]))
  · intro k hk
    by_cases hs : k = r.head % r.queueCapacity
    · rw [hs, Ring.set_same]; exact hg
    · rw [Ring.set_of_ne _ _ hs] at hk ⊢
      exact h.noGrh k hk

theorem append (h : Ready tail r) {hd hd' : PacketHandle} {pool pool' : PacketBufferPool}
    (hroom : r.hasRoom tail = true) (hc : claimBuffer (r.getMutableEntry r.head) pool = some (hd, pool'))
    (hl : r.load hd = some hd') : Ready tail (r.append hd') := by
  have hw := h.wndCap
  have hw16 := h.wnd16
  have htl := h.tailLe
  have hle : r.head - tail ≤ r.wndSize := by
    have := of_decide_eq_true (Bool.and_eq_true_iff.1 hroom).2
    rwa [sub64_of_le htl (by have := h.len16; omega)] at this
  have hb := claimBuffer_some hc
  have hg := claimBuffer_noGrh hc (h.noGrh _)
  have hslot := h.set (x := { hd' with inflight := true }) (by rw [load_eq hl]; exact hb) (by rw [load_eq hl]; exact hg)
  refine ⟨hslot.1, hslot.2, hw, hw16, ?_, ?_, ?_⟩
  · simp only [SendRing.append]; omega
  · simp only [SendRing.append]; omega
  · simp only [SendRing.append]; omega

theorem spoil (h : Ready tail r) {hd : PacketHandle} {pool pool' : PacketBufferPool}
    (hc : claimBuffer (r.getMutableEntry r.head) pool = some (hd, pool')) : Ready tail (r.spoil (r.stamp hd)) := by
  have hb := claimBuffer_some hc
  have hg := claimBuffer_noGrh hc (h.noGrh _)
  have hslot := h.set (x := r.stamp hd) hb hg
  exact ⟨fun i hi => hslot.1 i (Nat.lt_succ_of_lt hi), hslot.2, h.wndCap, h.wnd16, h.tailLe, h.lenCap, h.len16⟩

theorem fill (h : Ready tail r) (fuel : Nat) (pool : PacketBufferPool) : Ready tail (fill tail fuel r pool).2.1 :=
  fill_rule (fun _ _ _ _ _ hr hroom hc hl => hr.append hroom hc hl) (fun _ _ _ _ hr _ hc _ => hr.spoil hc) fuel r pool h

theorem pushed (h : Ready tail r) (s : SecondaryQueue) : Ready tail { r with secondaryQueue := s } :=
  ⟨h.owned, h.noGrh, h.wndCap, h.wnd16, h.tailLe, h.lenCap, h.len16⟩

/-- A cumulative ACK moves the tail up behind `head_`. -/
theorem ack (h : Ready tail r) {sn : Nat} (hsn : sn < 2 ^ 24) : Ready (ackTail tail r.head sn) r := by
  have h16 := h.len16
  have hc := h.lenCap
  have hb : tail ≤ ackTail tail r.head sn ∧ ackTail tail r.head sn ≤ r.head := by
    rw [ackTail_eq_unwrap]
    exact Serial.unwrap_bounds h.tailLe (by omega) hsn
  exact ⟨h.owned, h.noGrh, h.wndCap, h.wnd16, hb.2, by omega, by omega⟩

end Ready

end SendRing

end RapidTransfer
