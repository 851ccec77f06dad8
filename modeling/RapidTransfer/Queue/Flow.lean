/-
A send queue that never runs dry: every slot of its ring has a packet buffer, so the pool is not asked any
more, and the fragments that wait can be loaded. An ACK for the next fragment then moves `tail_` by one and
leaves a fragment in flight, as long as there is one (`Flowing.ack_next`).
-/
import RapidTransfer.Queue.Ready

namespace RapidTransfer

/-- The ring is used all around, and `total` fragments have a slot or wait for one. -/
structure SendRing.Loaded (tail total : Nat) (r : SendRing) : Prop where
  ready : r.Ready tail
  around : 0 < r.queueCapacity ∧ r.queueCapacity ≤ r.head
  wf : r.secondaryQueue.WF
  addrs : ∀ b ∈ r.secondaryQueue.pending, b.addr ≠ 0
  total : r.head + r.secondaryQueue.pending.length = total

namespace SendRing.Loaded

variable {tail total : Nat} {r : SendRing}

/-- The slot of `head_` has a buffer from the round before. -/
theorem owned (h : r.Loaded tail total) : (r.getMutableEntry r.head).packetBuf.isSome = true := by
  obtain ⟨hpos, hle⟩ := h.around
  have := h.ready.owned (r.head - r.queueCapacity) (by omega)
  rwa [getMutableEntry, Nat.mod_eq_sub_mod hle]

theorem claim (h : r.Loaded tail total) (pool : PacketBufferPool) :
    claimBuffer (r.getMutableEntry r.head) pool = some (r.getMutableEntry r.head, pool) := by
  unfold claimBuffer
  rw [if_pos h.owned]

/-- What is popped next. -/
theorem pop (h : r.Loaded tail total) (hroom : r.hasRoom tail = true) :
    ∃ x xs, r.secondaryQueue.pending = x :: xs ∧ (r.secondaryQueue.popFragment).1 = x ∧
      (r.secondaryQueue.popFragment).2.WF ∧ (r.secondaryQueue.popFragment).2.pending = xs := by
  have hne := (Bool.and_eq_true_iff.1 hroom).1
  rw [SecondaryQueue.hasRemainingFragment_iff h.wf.size] at hne
  obtain ⟨x, xs, hx⟩ := List.exists_cons_of_ne_nil hne
  exact ⟨x, xs, hx, SecondaryQueue.popFragment_spec h.wf hx⟩

theorem load (h : r.Loaded tail total) (hroom : r.hasRoom tail = true) {hd : PacketHandle}
    (hb : hd.packetBuf.isSome = true) : r.load hd ≠ none := by
  obtain ⟨x, xs, hx, hpop, -⟩ := h.pop hroom
  refine load_ne_none hb ?_
  rw [hpop]
  exact h.addrs x (hx ▸ List.mem_cons_self)

theorem append (h : r.Loaded tail total) (hroom : r.hasRoom tail = true) {hd hd' : PacketHandle}
    {pool pool' : PacketBufferPool} (hc : claimBuffer (r.getMutableEntry r.head) pool = some (hd, pool'))
    (hl : r.load hd = some hd') : (r.append hd').Loaded tail total := by
  obtain ⟨x, xs, hx, -, hwf, hxs⟩ := h.pop hroom
  have htotal := h.total
  rw [hx, List.length_cons] at htotal
  refine ⟨h.ready.append hroom hc hl, ⟨h.around.1, Nat.le_succ_of_le h.around.2⟩, hwf, fun b hb => ?_, ?_⟩
  · refine h.addrs b ?_
    rw [hx]
    exact List.mem_cons_of_mem x (hxs ▸ hb)
  · simp only [SendRing.append]
    rw [hxs]
    omega

theorem fill (h : r.Loaded tail total) (fuel : Nat) (pool : PacketBufferPool) :
    (fill tail fuel r pool).2.1.Loaded tail total :=
  fill_rule (fun _ _ _ _ _ hr hroom hc hl => hr.append hroom hc hl)
    (fun _ _ _ _ hr hroom hc hl => absurd hl (hr.load hroom (claimBuffer_some hc))) fuel r pool h

/-- A queue with nothing in flight takes a fragment that waits, whatever the window. -/
theorem fill_ahead (h : r.Loaded tail total) (hlt : tail < total) (fuel : Nat) (pool : PacketBufferPool) :
    tail < (SendRing.fill tail (fuel + 1) r pool).2.1.head := by
  rcases Nat.lt_or_ge tail r.head with hahead | hle
  · exact lt_of_lt_of_le hahead (fill_frame tail (fuel + 1) r pool).2.2.2.2
  · have htail : r.head = tail := le_antisymm hle h.ready.tailLe
    have hroom : r.hasRoom tail = true := by
      have hne : r.secondaryQueue.pending ≠ [] := by
        intro hnil
        have := h.total
        rw [hnil, List.length_nil] at this
        omega
      unfold hasRoom
      rw [(SecondaryQueue.hasRemainingFragment_iff h.wf.size).2 hne, htail, sub64_of_le le_rfl (by omega)]
      simp
    unfold SendRing.fill
    rw [if_pos hroom, h.claim pool]
    simp only
    cases hl : r.load (r.getMutableEntry r.head) with
    | none => exact absurd hl (h.load hroom h.owned)
    | some hd =>
      have := (fill_frame tail fuel (r.append hd) pool).2.2.2.2
      simp only [SendRing.append] at this ⊢
      omega

end SendRing.Loaded

structure SendQueue.Flowing (total : Nat) (q : SendQueue) : Prop where
  loaded : q.ring.Loaded q.tail total
  ahead : q.tail < total → q.tail < q.ring.head

namespace SendQueue.Flowing

variable {total : Nat} {q : SendQueue}

/-- An ACK for the fragment after `tail_`. -/
theorem ack_next (h : q.Flowing total) (hlt : q.tail < total) (pool : PacketBufferPool) :
    (q.markCompleted (shortSN (q.tail + 1)) pool).2.1.Flowing total ∧
      (q.markCompleted (shortSN (q.tail + 1)) pool).2.1.tail = q.tail + 1 := by
  have hahead := h.ahead hlt
  have hready := h.loaded.ready
  have h16 := hready.len16
  have hcap := hready.lenCap
  have htail : ackTail q.tail q.ring.head (shortSN (q.tail + 1)) = q.tail + 1 := by
    rw [ackTail_eq_unwrap, shortSN, Serial.unwrap_mod hready.tailLe (by omega) (by omega) (by omega)]
    omega
  have hloaded : q.ring.Loaded (q.tail + 1) total :=
    ⟨⟨hready.owned, hready.noGrh, hready.wndCap, hready.wnd16, hahead, by omega, by omega⟩, h.loaded.around,
      h.loaded.wf, h.loaded.addrs, h.loaded.total⟩
  unfold markCompleted
  rw [htail]
  exact ⟨⟨hloaded.fill (q.ring.wndSize + 1) pool, fun hlt => hloaded.fill_ahead hlt q.ring.wndSize pool⟩, rfl⟩

end SendQueue.Flowing

end RapidTransfer
