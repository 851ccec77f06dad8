/-
The packets of a send ring. A slot gets one when it is first used; the fill loop stops at a slot that has none while the
pool has none left. With nothing in flight the room test lets one fragment through whatever the window, so a loop that
finds a packet leaves something in flight if anything waits (`fill_ahead`), and one that finds none does nothing
(`fill_stuck`).
-/
import RapidTransfer.Queue.Send

namespace RapidTransfer

/-- What waits can be cut into fragments and loaded. -/
structure SecondaryQueue.Loadable (s : SecondaryQueue) : Prop where
  wf : s.WF
  addrs : ∀ b ∈ s.pending, b.addr ≠ 0

namespace SecondaryQueue.Loadable

variable {s s' : SecondaryQueue}

theorem push (h : s.Loadable) {bufs : List Buffer} (hb : ∀ b ∈ bufs, b.addr ≠ 0) {ids : Nat × Nat}
    (hp : s.push bufs = some (ids, s')) : s'.Loadable := by
  obtain ⟨hwf, hpend⟩ := pending_push h.wf hp
  refine ⟨hwf, fun b hmem => ?_⟩
  rw [hpend, List.mem_append] at hmem
  rcases hmem with hmem | hmem
  · exact h.addrs b hmem
  · exact addr_ne_zero_of_mem_fragments hb b hmem

/-- The next fragment has an address, and the others wait as before. -/
theorem pop (h : s.Loadable) (hne : s.hasRemainingFragment = true) :
    s.popFragment.1.addr ≠ 0 ∧ s.popFragment.2.Loadable := by
  rw [hasRemainingFragment_iff h.wf.size] at hne
  obtain ⟨x, xs, hx⟩ := List.exists_cons_of_ne_nil hne
  obtain ⟨hpop, hwf, hxs⟩ := popFragment_spec h.wf hx
  have haddr : ∀ b ∈ x :: xs, b.addr ≠ 0 := hx ▸ h.addrs
  refine ⟨hpop ▸ haddr x List.mem_cons_self, hwf, fun b hb => ?_⟩
  exact haddr b (List.mem_cons_of_mem x (hxs ▸ hb))

end SecondaryQueue.Loadable

namespace SendRing

variable {r : SendRing} {tail : Nat} {pool : PacketBufferPool}

theorem loadable_fill (h : r.secondaryQueue.Loadable) (tail fuel : Nat) (pool : PacketBufferPool) :
    (fill tail fuel r pool).2.1.secondaryQueue.Loadable := by
  refine fill_rule (P := fun r => r.secondaryQueue.Loadable) ?_ ?_ fuel r pool h
  · intro r' hd hd' pool pool' hr hroom _ _
    exact (hr.pop (Bool.and_eq_true_iff.1 hroom).1).2
  · intro r' hd pool pool' hr hroom _ _
    exact (hr.pop (Bool.and_eq_true_iff.1 hroom).1).2

/-- The slot of `head_` has a packet, or there is one for it. -/
def Claimable (r : SendRing) (pool : PacketBufferPool) : Prop :=
  (r.getMutableEntry r.head).packetBuf.isSome = true ∨ pool.freeBuffers ≠ []

theorem Claimable.claim (h : Claimable r pool) :
    ∃ hd pool', claimBuffer (r.getMutableEntry r.head) pool = some (hd, pool') := by
  unfold claimBuffer
  split
  · exact ⟨_, _, rfl⟩
  · rename_i hno
    rcases h with h | h
    · exact absurd h hno
    · obtain ⟨b, rest, hb⟩ := List.exists_cons_of_ne_nil h
      unfold PacketBufferPool.allocatePacket
      rw [hb]
      exact ⟨_, _, rfl⟩

/-- After the loop something is in flight if anything waits: with nothing in flight there is room for one fragment,
whatever the window. -/
theorem fill_ahead (h : r.secondaryQueue.Loadable) (htail : tail ≤ r.head) (hclaim : r.head = tail → Claimable r pool)
    (fuel : Nat) (hne : (fill tail (fuel + 1) r pool).2.1.secondaryQueue.pending ≠ []) :
    tail < (fill tail (fuel + 1) r pool).2.1.head := by
  rcases Nat.lt_or_ge tail r.head with hlt | hge
  · exact lt_of_lt_of_le hlt (fill_frame tail (fuel + 1) r pool).2.2.2.2
  · have heq : r.head = tail := le_antisymm hge htail
    obtain ⟨hd, pool', hc⟩ := (hclaim heq).claim
    have hwait : r.secondaryQueue.hasRemainingFragment = true := by
      by_contra hno
      have hroom : r.hasRoom tail = false := by
        unfold hasRoom
        rw [Bool.eq_false_iff.2 hno]
        rfl
      unfold fill at hne
      rw [if_neg (by rw [hroom]; decide)] at hne
      exact hno ((SecondaryQueue.hasRemainingFragment_iff h.wf.size).2 hne)
    have hroom : r.hasRoom tail = true := by
      unfold hasRoom
      rw [hwait, heq, sub64_of_le le_rfl (by omega)]
      simp
    unfold fill
    rw [if_pos hroom, hc]
    simp only
    cases hl : r.load hd with
    | none => exact absurd hl (load_ne_none (claimBuffer_some hc) (h.pop hwait).1)
    | some hd' =>
      have := (fill_frame tail fuel (r.append hd') pool').2.2.2.2
      simp only [append] at this ⊢
      omega

/-- Without a packet for the slot of `head_` the loop does nothing. -/
theorem fill_stuck (hslot : (r.getMutableEntry r.head).packetBuf = none) (hpool : pool.freeBuffers = []) (fuel : Nat) :
    fill tail fuel r pool = (0, r, pool) := by
  cases fuel with
  | zero => rfl
  | succ fuel =>
    have hc : claimBuffer (r.getMutableEntry r.head) pool = none := by
      unfold claimBuffer
      rw [hslot, if_neg (by decide)]
      exact PacketBufferPool.allocatePacket_eq_none.2 hpool
    unfold fill
    rw [hc]
    split
    · rfl
    · rfl

end SendRing

end RapidTransfer
