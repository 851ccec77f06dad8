/-
When a session sends. The loop of `sendDataPackets` goes through the window from `tail_` on and stops at the first
packet that is younger than `recv_rto_`, so what it stamps is an interval at the start of the window. As long as the
clock does not go back, the send times of a window fall from its start to its end, with the packets that were never sent
last (`SendRing.Aging`).

So a session sends nothing while any packet of its window is younger than `recv_rto_`, packets that were never sent
included (`sends_when_all_are_old`): an ACK for a part of the window lets nothing out before the rest has timed out.
-/
import RapidTransfer.Context.Followed

namespace RapidTransfer

open RapidTransfer.Core

/-! ## The send times of a window -/

/-- Nothing in the window was sent after `now`, and no packet later than one before it; zero is for never. The ring has
room for a window of `w`, and nothing has made the window larger. -/
structure SendRing.Aging (w now tail : Nat) (r : SendRing) : Prop where
  wnd : r.wndSize ≤ w
  cap : w < r.queueCapacity
  short : w < 2 ^ 16
  tailLe : tail ≤ r.head
  len : r.head ≤ tail + w + 1
  latest : ∀ i, tail ≤ i → i < r.head → (r.getMutableEntry i).ts ≤ now
  ordered : ∀ i j, tail ≤ i → i ≤ j → j < r.head → (r.getMutableEntry j).ts ≤ (r.getMutableEntry i).ts

namespace SendRing.Aging

variable {w now tail : Nat} {r : SendRing}

theorem mono (h : Aging w now tail r) {later : Nat} (hle : now ≤ later) : Aging w later tail r :=
  { h with latest := fun i h1 h2 => (h.latest i h1 h2).trans hle }

theorem construct {raw : PacketHandle} {mtu cap wnd session : Nat}
    (hr : SendRing.construct raw mtu cap wnd session = some r) (hwnd : wnd ≤ w) (hcap : w < cap) (hshort : w < 2 ^ 16) :
    Aging w now 0 r := by
  unfold SendRing.construct at hr
  rw [if_pos ⟨hwnd.trans hcap.le, Nat.zero_lt_of_lt hcap⟩] at hr
  cases hr
  exact ⟨(Nat.mod_le _ _).trans hwnd, hcap, hshort, le_rfl, Nat.zero_le _, fun i _ hi => absurd hi (Nat.not_lt_zero i),
    fun i j _ _ hj => absurd hj (Nat.not_lt_zero j)⟩

/-- With room for a fragment, no packet of the window is in the slot of `head_`. -/
theorem room (h : Aging w now tail r) (hroom : r.hasRoom tail = true) :
    r.head ≤ tail + w ∧ ∀ x i, tail ≤ i → i < r.head →
      Ring.set r.handle (r.head % r.queueCapacity) x (i % r.queueCapacity) = r.getMutableEntry i := by
  have hle := of_decide_eq_true (Bool.and_eq_true_iff.1 hroom).2
  obtain ⟨hwnd, hcap, hshort, htail, hlen, -, -⟩ := h
  rw [sub64_of_le htail (by omega)] at hle
  constructor
  · omega
  · intro x i h1 h2
    exact Ring.set_of_ne _ _ (Ring.slot_ne h1 (by omega) htail (by omega) h2.ne)

theorem append (h : Aging w now tail r) (hroom : r.hasRoom tail = true) {hd hd' : PacketHandle}
    (hload : r.load hd = some hd') : Aging w now tail (r.append hd') := by
  obtain ⟨hlen, hold⟩ := h.room hroom
  have hkept : ∀ i, tail ≤ i → i < r.head → (r.append hd').getMutableEntry i = r.getMutableEntry i := hold _
  have hnew : ((r.append hd').getMutableEntry r.head).ts = 0 := by
    unfold getMutableEntry
    simp only [SendRing.append, Ring.set_same]
    rw [load_eq hload]
    rfl
  refine { h with tailLe := Nat.le_succ_of_le h.tailLe, len := Nat.succ_le_succ hlen, latest := ?_, ordered := ?_ }
  · intro i h1 h2
    rcases Nat.lt_succ_iff_lt_or_eq.1 h2 with hlt | rfl
    · rw [hkept i h1 hlt]
      exact h.latest i h1 hlt
    · rw [hnew]
      exact Nat.zero_le _
  · intro i j h1 h2 h3
    rcases Nat.lt_succ_iff_lt_or_eq.1 h3 with hlt | rfl
    · rw [hkept j (h1.trans h2) hlt, hkept i h1 (lt_of_le_of_lt h2 hlt)]
      exact h.ordered i j h1 h2 hlt
    · rw [hnew]
      exact Nat.zero_le _

theorem spoil (h : Aging w now tail r) (hroom : r.hasRoom tail = true) (hd : PacketHandle) :
    Aging w now tail (r.spoil hd) := by
  obtain ⟨-, hold⟩ := h.room hroom
  have hkept : ∀ i, tail ≤ i → i < r.head → (r.spoil hd).getMutableEntry i = r.getMutableEntry i := hold hd
  refine { h with latest := fun i h1 h2 => ?_, ordered := fun i j h1 h2 h3 => ?_ }
  · rw [hkept i h1 h2]
    exact h.latest i h1 h2
  · rw [hkept j (h1.trans h2) h3, hkept i h1 (lt_of_le_of_lt h2 h3)]
    exact h.ordered i j h1 h2 h3

theorem fill (h : Aging w now tail r) (fuel : Nat) (pool : PacketBufferPool) :
    Aging w now tail (fill tail fuel r pool).2.1 :=
  fill_rule (fun _ _ _ _ _ hr hroom _ hload => hr.append hroom hload)
    (fun _ _ _ _ hr hroom _ _ => hr.spoil hroom _) fuel r pool h

theorem fillPrimaryQueue {q : SendQueue} (h : q.ring.Aging w now q.tail) (pool : PacketBufferPool) :
    (q.fillPrimaryQueue pool).2.1.ring.Aging w now (q.fillPrimaryQueue pool).2.1.tail :=
  h.fill (q.ring.wndSize + 1) pool

theorem setSecondaryQueue (h : Aging w now tail r) (s : SecondaryQueue) :
    Aging w now tail { r with secondaryQueue := s } :=
  ⟨h.wnd, h.cap, h.short, h.tailLe, h.len, h.latest, h.ordered⟩

theorem followWnd (h : Aging w now tail r) (cwnd : Nat) (hwnd : (followWnd r cwnd).wndSize ≤ w) :
    Aging w now tail (followWnd r cwnd) := by
  unfold Core.followWnd at hwnd ⊢
  split
  · rename_i hne
    rw [if_pos hne] at hwnd
    exact ⟨hwnd, h.cap, h.short, h.tailLe, h.len, h.latest, h.ordered⟩
  · exact h

/-- A cumulative ACK takes packets off the start of the window. -/
theorem ack (h : Aging w now tail r) {sn : Nat} (hsn : sn < 2 ^ 24) : Aging w now (ackTail tail r.head sn) r := by
  have hlen := h.len
  have hshort := h.short
  obtain ⟨h1, h2⟩ : tail ≤ ackTail tail r.head sn ∧ ackTail tail r.head sn ≤ r.head := by
    rw [ackTail_eq_unwrap]
    exact Serial.unwrap_bounds h.tailLe (by omega) hsn
  exact { h with
    tailLe := h2
    len := by omega
    latest := fun i hi => h.latest i (h1.trans hi)
    ordered := fun i j hi => h.ordered i j (h1.trans hi) }

end SendRing.Aging

/-- A pass of the send loop: the start of the window is stamped with the time of the pass. -/
structure SendQueue.Swept (ts : Nat) (q q' : SendQueue) : Prop where
  tail : q'.tail = q.tail
  ring : q.ring.Restamped q'.ring
  sweep : ∃ k, ∀ i, q.tail ≤ i → i < q.ring.head →
    (q'.ring.getMutableEntry i).ts = if i < k then ts else (q.ring.getMutableEntry i).ts

namespace SendQueue.Swept

variable {ts : Nat} {q q' q'' : SendQueue}

theorem refl (ts : Nat) (q : SendQueue) : Swept ts q q :=
  ⟨rfl, .refl _, 0, fun i _ _ => (if_neg (Nat.not_lt_zero i)).symm⟩

theorem trans (h : Swept ts q q') (h' : Swept ts q' q'') : Swept ts q q'' := by
  obtain ⟨k, hk⟩ := h.sweep
  obtain ⟨k', hk'⟩ := h'.sweep
  refine ⟨h'.tail.trans h.tail, h.ring.trans h'.ring, max k k', fun i h1 h2 => ?_⟩
  rw [hk' i (by rw [h.tail]; exact h1) (by rw [h.ring.head]; exact h2), hk i h1 h2]
  by_cases hik' : i < k'
  · rw [if_pos hik', if_pos (lt_max_of_lt_right hik')]
  · rw [if_neg hik']
    by_cases hik : i < k
    · rw [if_pos hik, if_pos (lt_max_of_lt_left hik)]
    · rw [if_neg hik, if_neg (by simp [hik, hik'])]

/-- The stamps of the pass are the latest, and they are at the start. -/
theorem aging (h : Swept ts q q') {w now : Nat} (hq : q.ring.Aging w now q.tail) (hle : now ≤ ts)
    (hwnd : q'.ring.wndSize ≤ w) : q'.ring.Aging w ts q'.tail := by
  obtain ⟨k, hk⟩ := h.sweep
  rw [h.tail]
  refine ⟨hwnd, by rw [h.ring.queueCapacity]; exact hq.cap, hq.short, by rw [h.ring.head]; exact hq.tailLe,
    by rw [h.ring.head]; exact hq.len, ?_, ?_⟩
  · intro i h1 h2
    rw [h.ring.head] at h2
    rw [hk i h1 h2]
    split
    · exact le_rfl
    · exact (hq.latest i h1 h2).trans hle
  · intro i j h1 h2 h3
    rw [h.ring.head] at h3
    rw [hk i h1 (lt_of_le_of_lt h2 h3), hk j (h1.trans h2) h3]
    by_cases hj : j < k
    · rw [if_pos hj, if_pos (lt_of_le_of_lt h2 hj)]
    · rw [if_neg hj]
      split
      · exact (hq.latest j (h1.trans h2) h3).trans hle
      · exact hq.ordered i j h1 h2 h3

end SendQueue.Swept

/-! ## The loop -/

namespace Context

variable {c c' : Core} {ts sid k : Nat} {draw : Nat → Post} {b : Bool}

/-- The loop stamps the packets of an initial part of the list. -/
theorem sendIndices_stamps {cap : Nat} : ∀ {is : List Nat} {l l' : Sending} {b : Bool},
    l.queue.ring.queueCapacity = cap → sendIndices ts draw sid is l = some (b, l') →
    ∃ m, ∀ k, (l'.queue.ring.handle k).ts =
      if k ∈ (is.take m).map (· % cap) then ts else (l.queue.ring.handle k).ts
  | [], l, l', b, _, h => by
    cases h
    exact ⟨0, fun k => (if_neg List.not_mem_nil).symm⟩
  | i :: is, l, l', b, hcap, h => by
    have hsent : ∀ {b' m}, sendIndex ts draw sid l i = some (b', m) → m.queue.ring.queueCapacity = cap ∧
        ∀ k, (m.queue.ring.handle k).ts = if k = i % cap then ts else (l.queue.ring.handle k).ts := by
      intro b' m hm
      rw [(Sending.sendIndex_touch hm).2]
      constructor
      · rw [← hcap]
        unfold Sending.touch
        split
        · rfl
        · rfl
      · intro k
        rw [Sending.touch_handle, hcap]
    unfold sendIndices at h
    split at h
    · cases h
      exact ⟨0, fun k => (if_neg List.not_mem_nil).symm⟩
    · split at h
      · cases h
      · rename_i h1
        cases h
        refine ⟨1, fun k => ?_⟩
        rw [(hsent h1).2 k]
        simp
      · rename_i h1
        obtain ⟨m, hm⟩ := sendIndices_stamps (hsent h1).1 h
        refine ⟨m + 1, fun k => ?_⟩
        rw [hm k, (hsent h1).2 k]
        simp only [List.take_succ_cons, List.map_cons, List.mem_cons]
        by_cases hin : k ∈ (is.take m).map (· % cap)
        · rw [if_pos hin, if_pos (.inr hin)]
        · rw [if_neg hin]
          by_cases hk : k = i % cap
          · rw [if_pos hk, if_pos (.inl hk)]
          · rw [if_neg hk, if_neg (by tauto)]

theorem sendIndices_swept {q : SendQueue} {info : SessionInfo} {l l' : Sending} (hq : l.queue = q)
    (hlen : q.ring.head ≤ q.tail + q.ring.queueCapacity) (hsound : Sending.Sound c q l')
    (h : sendIndices ts draw sid (sendRange q info) l = some (b, l')) : SendQueue.Swept ts q l'.queue := by
  obtain ⟨m, hm⟩ := sendIndices_stamps (congrArg (·.ring.queueCapacity) hq) h
  refine ⟨hsound.tail, hsound.ring, q.tail + min m (min q.ring.head (q.tail + info.cwnd) - q.tail), fun i h1 h2 => ?_⟩
  unfold SendRing.getMutableEntry
  rw [hsound.ring.queueCapacity, hm, hq]
  refine if_congr ?_ rfl rfl
  have htake : (sendRange q info).take m = List.range' q.tail (min m (min q.ring.head (q.tail + info.cwnd) - q.tail)) :=
    List.ext_getElem (by simp [sendRange]) (by simp [sendRange])
  rw [htake, List.mem_map]
  constructor
  · rintro ⟨j, hj, hslot⟩
    obtain ⟨hj1, hj2⟩ := List.mem_range'_1.1 hj
    -- two indices of the window in one slot are the same
    obtain rfl : j = i := by
      by_contra hne
      exact Ring.slot_ne hj1 (by omega) h1 (by omega) hne hslot
    exact hj2
  · intro hi
    exact ⟨i, List.mem_range'_1.2 ⟨h1, hi⟩, rfl⟩

theorem finish_queue {l l' : Sending} (h : finish draw l = some l') : l'.queue = l.queue := by
  unfold finish at h
  split at h
  · cases h
    rfl
  · cases h
  · exact (Sending.flush_resent h).2

/-- One session of `sendDataPackets` sweeps its own queue. -/
theorem sendSession_swept {q : SendQueue} {resent : List Nat} (hown : c.Entries (Own (·.sendQueue)))
    (hq : c.packetManager.sendQueueAt sid = some q) (hlen : q.ring.head ≤ q.tail + q.ring.queueCapacity)
    (hs : sendSession ts draw c k = some (b, c', resent)) :
    ∃ q', c'.packetManager.sendQueueAt sid = some q' ∧ SendQueue.Swept ts q q' := by
  unfold sendSession at hs
  split at hs
  · cases hs
  · rename_i info hinfo
    split at hs
    · cases hs
      exact ⟨q, hq, .refl ts q⟩
    · split at hs
      · cases hs
      · rename_i ptr hptr
        obtain rfl : ptr = k := hown k info hinfo ptr hptr
        split at hs
        · cases hs
        · rename_i q0 hq0
          have hstore : ∀ l : Sending, Sending.Sound c q0 l → (ptr = sid → SendQueue.Swept ts q l.queue) →
              ∃ q', (l.store ptr).packetManager.sendQueueAt sid = some q' ∧ SendQueue.Swept ts q q' := by
            intro l hl hswept
            have hmgr : l.core.packetManager = c.packetManager := by rw [hl.core]
            unfold Sending.store
            rw [hmgr]
            rw [show c.packetManager.setSendQueue ptr l.queue =
              { c.packetManager with pool := c.packetManager.pool }.setSendQueue ptr l.queue from rfl]
            rw [PacketManager.sendQueueAt_setSendQueue]
            split
            · rename_i hk
              exact ⟨l.queue, rfl, hswept hk.symm⟩
            · exact ⟨q, hq, .refl ts q⟩
          have hsound : Sending.Sound c q0 ⟨c, info, q0, none, [], 0, []⟩ :=
            ⟨rfl, rfl, .refl _, ⟨[], by simp, by simp⟩, by simp⟩
          have hloop : ∀ {b' l},
              sendIndices ts draw ptr (sendRange q0 info) ⟨c, info, q0, none, [], 0, []⟩ = some (b', l) →
              ptr = sid → SendQueue.Swept ts q l.queue := by
            rintro b' l hl rfl
            obtain rfl := Option.some.inj ((PacketManager.sendQueueAt_of_some hq0).symm.trans hq)
            exact sendIndices_swept rfl hlen (hsound.sendIndices hl) hl
          split at hs
          · cases hs
          · rename_i l hl
            cases hs
            exact hstore l (hsound.sendIndices hl) (hloop hl)
          · rename_i l hl
            obtain ⟨l', hf, hx⟩ := Option.map_eq_some_iff.1 hs
            cases hx
            refine hstore l' ((hsound.sendIndices hl).finish hf) fun hk => ?_
            rw [finish_queue hf]
            exact hloop hl hk

theorem sendDataPackets_swept {q : SendQueue} {order : List Nat} {draw : Nat → Nat → Post} {ret : Int}
    {log : List (Nat × List Nat)} (hown : c.Entries (Own (·.sendQueue))) (hq : c.packetManager.sendQueueAt sid = some q)
    (hlen : q.ring.head ≤ q.tail + q.ring.queueCapacity) (hs : sendDataPackets ts draw order c = some (ret, c', log)) :
    ∃ q', c'.packetManager.sendQueueAt sid = some q' ∧ SendQueue.Swept ts q q' := by
  refine (sendDataPackets_rule (P := fun x => x.Entries (Own (·.sendQueue)) ∧
    ∃ q', x.packetManager.sendQueueAt sid = some q' ∧ SendQueue.Swept ts q q') ?_ ⟨hown, q, hq, .refl ts q⟩ hs).2
  rintro x j b x' r ⟨hx, q1, hq1, h1⟩ hses
  obtain ⟨q2, hq2, h2⟩ :=
    sendSession_swept hx hq1 (by rw [h1.tail, h1.ring.head, h1.ring.queueCapacity]; exact hlen) hses
  refine ⟨?_, q2, hq2, h1.trans h2⟩
  obtain rfl | ⟨e, ptr, _, _, st, ds, -, -, -, -, -, -, -, rfl⟩ := sendSession_some hses
  · exact hx
  · exact hx

/-! ## Runs -/

/-- The time of a call of `sendDataPackets`. -/
def sendTime : Event → Option Nat
  | .sendData ts _ _ => some ts
  | _ => none

/-- The ACKs of a session carry windows of at most `w`. -/
def AcksWithin (w sid : Nat) (c : Core) : Event → Prop
  | .arrive _ a => ∀ s ∈ c.sessionOf a, s.2 = sid → s.1.cmd ≠ pktCmdData → s.1.wnd ≤ w
  | _ => True

instance (w sid : Nat) (c : Core) : ∀ e, Decidable (AcksWithin w sid c e)
  | .arrive _ a => inferInstanceAs (Decidable (∀ s ∈ c.sessionOf a, s.2 = sid → s.1.cmd ≠ pktCmdData → s.1.wnd ≤ w))
  | .setupConnection .. => inferInstanceAs (Decidable True)
  | .send .. => inferInstanceAs (Decidable True)
  | .receive .. => inferInstanceAs (Decidable True)
  | .freeTask .. => inferInstanceAs (Decidable True)
  | .sendAcks .. => inferInstanceAs (Decidable True)
  | .sendData .. => inferInstanceAs (Decidable True)
  | .sent .. => inferInstanceAs (Decidable True)

theorem WndAtMost.queueAt {w : Nat} {q : SendQueue} (h : WndAtMost w sid c) (hnew : c.packetManager.wndSize ≤ w)
    (hq : c.packetManager.sendQueueAt sid = some q) : q.ring.wndSize ≤ w := by
  cases hmade : c.packetManager.sendQueue sid with
  | some q0 =>
    obtain rfl := Option.some.inj ((PacketManager.sendQueueAt_of_some hmade).symm.trans hq)
    exact h.queue q0 hmade
  | none =>
    rw [PacketManager.sendQueueAt_of_none hmade] at hq
    obtain ⟨r, hr, rfl⟩ := Option.map_eq_some_iff.1 hq
    unfold SendRing.construct at hr
    split at hr
    · cases hr
      exact (Nat.mod_le _ _).trans hnew
    · cases hr

/-- The send queue of a session, made or not, is in order, and its windows have a bound. -/
structure Paced (w sid now : Nat) (c : Core) : Prop where
  own : c.Entries (Own (·.sendQueue))
  wndSize : c.packetManager.wndSize ≤ w
  wnd : WndAtMost w sid c
  queue : ∃ q, c.packetManager.sendQueueAt sid = some q ∧ q.ring.Aging w now q.tail

namespace Paced

variable {w now : Nat} {e : Event}

theorem start {cfg : Config} (h0 : start cfg = some c) (hw : kWndSize ≤ w) (hcap : w < cfg.queueCapacity)
    (hshort : w < 2 ^ 16) : Paced w sid now c := by
  obtain ⟨r, -, rfl⟩ := Option.map_eq_some_iff.1 h0
  refine ⟨fun k e he => (by cases he), hw, ⟨fun e he => (by cases he), fun q hq => (by cases hq)⟩, ?_⟩
  have hmade : ∃ ring, SendRing.construct cfg.raw cfg.mtuSize cfg.queueCapacity kWndSize (sid % 256) = some ring :=
    ⟨_, if_pos ⟨hw.trans hcap.le, Nat.zero_lt_of_lt hcap⟩⟩
  obtain ⟨ring, hring⟩ := hmade
  refine ⟨⟨ring, 0⟩, ?_, .construct hring hw hcap hshort⟩
  rw [PacketManager.sendQueueAt_of_none rfl]
  exact congrArg (Option.map _) hring

theorem mono (h : Paced w sid now c) {later : Nat} (hle : now ≤ later) : Paced w sid later c := by
  obtain ⟨q, hq, hage⟩ := h.queue
  exact { h with queue := ⟨q, hq, hage.mono hle⟩ }

/-- A step that is not a call of `sendDataPackets` sets no send time. -/
theorem move {q q' : SendQueue} (hage : q.ring.Aging w now q.tail) (hm : SendMove c c' sid e q q')
    (hno : sendTime e = none) (hwnd : q'.ring.wndSize ≤ w) : q'.ring.Aging w now q'.tail := by
  cases hm with
  | kept => exact hage
  | pushed _ hp =>
    obtain ⟨ids, sq, -, -, hfill⟩ := SendQueue.push_some hp
    obtain rfl : (SendQueue.fillPrimaryQueue _ _).2.1 = q' := congrArg (·.2.1) hfill
    exact SendRing.Aging.fillPrimaryQueue (q := ⟨{ q.ring with secondaryQueue := sq }, q.tail⟩)
      (hage.setSecondaryQueue sq) _
  | stamped => cases hno
  | @acked ts cwnd a p _ pool ha _ =>
    have hsn := (deserialize_bounds (sessionOf_eq_some.1 ha).1).2
    have hfill := SendRing.Aging.fillPrimaryQueue (q := ⟨q.ring, ackTail q.tail q.ring.head p.sn⟩) (hage.ack hsn) pool
    exact hfill.followWnd cwnd hwnd

theorem step (h : Paced w sid now c) (hw : 4 ≤ w) (hack : AcksWithin w sid c e) (hle : ∀ ts ∈ sendTime e, now ≤ ts)
    (hs : Context.step c e = some c') : Paced w sid ((sendTime e).getD now) c' := by
  obtain ⟨q, hq, hage⟩ := h.queue
  have hsizes := step_sameSizes hs
  have hnew : c'.packetManager.wndSize ≤ w := by rw [hsizes.wndSize]; exact h.wndSize
  have hwnd : WndAtMost w sid c' := by
    refine h.wnd.step hw h.wndSize h.own ?_ hs
    rintro ts a p rfl hp hcmd
    exact hack (p, sid) hp rfl hcmd
  refine ⟨entries_step entryRule_ownSend h.own hs, hnew, hwnd, ?_⟩
  cases htime : sendTime e with
  | none =>
    obtain ⟨q', hq', hm⟩ := step_sendQueueAt h.own hs hq
    exact ⟨q', hq', move hage hm htime (hwnd.queueAt hnew hq')⟩
  | some ts =>
    cases e with
    | sendData ts' order draw =>
      cases htime
      obtain ⟨⟨ret, c1, log⟩, hx, rfl⟩ := Option.map_eq_some_iff.1 hs
      have hlen := hage.len
      have hcap := hage.cap
      obtain ⟨q', hq', hswept⟩ := sendDataPackets_swept h.own hq (by omega) hx
      exact ⟨q', hq', hswept.aging hage (hle ts rfl) (hwnd.queueAt hnew hq')⟩
    | _ => cases htime

/-- The send times of a run. -/
theorem run {c0 : Core} {es : List Event} (h0 : Paced w sid 0 c0) (hw : 4 ≤ w)
    (hrun : Runs.Run Context.step (fun c e => ok c e ∧ AcksWithin w sid c e) c0 es c)
    (hclock : (es.filterMap sendTime).Pairwise (· ≤ ·)) (hnow : ∀ ts ∈ es.filterMap sendTime, ts ≤ now) :
    Paced w sid now c := by
  induction hrun generalizing now with
  | nil => exact h0.mono (Nat.zero_le _)
  | @snoc es x x' e _ hok hstep ih =>
    rw [List.filterMap_append, List.pairwise_append] at hclock
    obtain ⟨hes, -, hlast⟩ := hclock
    simp only [List.filterMap_append, List.mem_append] at hnow
    cases htime : sendTime e with
    | none =>
      have hx := ih hes fun ts hts => hnow ts (.inl hts)
      have hx' := hx.step hw hok.2 (by simp [htime]) hstep
      rwa [htime] at hx'
    | some ts =>
      have hin : ts ∈ [e].filterMap sendTime := by simp [htime]
      have hx : Paced w sid ts x := ih hes fun t ht => hlast t ht ts hin
      have hx' := hx.step hw hok.2 (by simp [htime]) hstep
      rw [htime] at hx'
      exact hx'.mono (hnow ts (.inr hin))

end Paced

end Context

/-! ## The first packet of a window -/

namespace Node

variable {n n' : Node} {ts sid : Nat}

/-- The first packet of the window of a session is at least `recv_rto_` old. -/
def FirstIsOld (n : Node) (ts sid : Nat) : Prop :=
  ∃ q, n.core.packetManager.sendQueue sid = some q ∧ q.tail < q.ring.head ∧
    n.core.recvRto ≤ sub64 ts (q.ring.getMutableEntry q.tail).ts

/-- The loop comes to no other packet without the first. -/
theorem sendSession_firstIsOld {draw : Nat → Post} {b : Bool} {g : Ledger} (hown : n.core.Entries (Own (·.sendQueue)))
    (h : n.sendSession ts draw sid = some (b, n', g)) : g.posted = [] ∨ FirstIsOld n ts sid := by
  unfold sendSession at h
  split at h
  · cases h
  · rename_i info hinfo
    split at h
    · cases h
      exact .inl rfl
    · split at h
      · cases h
      · rename_i ptr hptr
        obtain rfl : ptr = sid := hown sid info hinfo ptr hptr
        split at h
        · cases h
        · rename_i q hq
          have hrange : Context.sendRange q info = [] ∨ ∃ rest, Context.sendRange q info = q.tail :: rest ∧
              q.tail < q.ring.head := by
            unfold Context.sendRange
            cases hn : min q.ring.head (q.tail + info.cwnd) - q.tail with
            | zero => exact .inl rfl
            | succ m => exact .inr ⟨List.range' (q.tail + 1) m, List.range'_succ, by omega⟩
          -- nothing is posted for a loop that ends at once
          have hidle : Posting.sendIndices ts draw ptr (Context.sendRange q info)
              ⟨⟨n.core, info, q, none, [], 0, []⟩, n.cache, ⟨[], [], [], []⟩⟩ =
                some (true, ⟨⟨n.core, info, q, none, [], 0, []⟩, n.cache, ⟨[], [], [], []⟩⟩) → g.posted = [] := by
            intro hx
            rw [hx] at h
            cases h
            rfl
          obtain hnil | ⟨rest, hcons, hlt⟩ := hrange
          · exact .inl (hidle (by rw [hnil]; rfl))
          · by_cases hyoung : sub64 ts (q.ring.getMutableEntry q.tail).ts < n.core.recvRto
            · refine .inl (hidle ?_)
              rw [hcons, Posting.sendIndices, if_pos hyoung]
            · exact .inr ⟨q, hq, hlt, not_lt.1 hyoung⟩

/-- A session that comes later finds its queue as it was. -/
theorem FirstIsOld.of_sendSession {draw : Nat → Post} {k : Nat} {b : Bool} {g : Ledger}
    (hown : n.core.Entries (Own (·.sendQueue))) (h : n.sendSession ts draw k = some (b, n', g)) (hne : sid ≠ k)
    (hold : FirstIsOld n' ts sid) : FirstIsOld n ts sid := by
  obtain ⟨q, hq, hlt, hage⟩ := hold
  obtain ⟨resent, hc⟩ := sendSession_some h
  obtain he | ⟨e, ptr, q0, q', st, ds, hlook, hptr, -, -, -, -, -, he⟩ := Context.sendSession_some hc
  · rw [he] at hq hage
    exact ⟨q, hq, hlt, hage⟩
  · obtain rfl : ptr = k := hown k e hlook ptr hptr
    rw [he] at hq hage
    exact ⟨q, (Function.update_of_ne hne _ _).symm.trans hq, hlt, hage⟩

theorem sendDataPackets_firstIsOld {draw : Nat → Nat → Post} : ∀ {order : List Nat} {n n' : Node} {ret : Int}
    {log : List (Nat × Ledger)}, n.core.Entries (Own (·.sendQueue)) → order.Nodup →
      n.sendDataPackets ts draw order = some (ret, n', log) →
      ∀ s ∈ log, s.1 ∈ order ∧ (s.2.posted = [] ∨ FirstIsOld n ts s.1)
  | [], n, n', ret, log, _, _, h => by
    cases h
    exact fun s hs => (List.not_mem_nil hs).elim
  | k :: rest, n, n', ret, log, hown, hnodup, h => by
    obtain ⟨hk, hrest⟩ := List.nodup_cons.1 hnodup
    unfold sendDataPackets at h
    split at h
    · cases h
    · rename_i hs
      cases h
      intro s hmem
      rw [List.mem_singleton.1 hmem]
      exact ⟨List.mem_cons_self, sendSession_firstIsOld hown hs⟩
    · rename_i n1 g hs
      obtain ⟨⟨ret', n2, log'⟩, hr, he⟩ := Option.map_eq_some_iff.1 h
      cases he
      have hown1 : n1.core.Entries (Own (·.sendQueue)) := by
        have hmap := (sendSession_sameRanges hs).sessions
        unfold Entries at hown ⊢
        rw [hmap]
        exact hown
      intro s hmem
      rcases List.mem_cons.1 hmem with rfl | hmem
      · exact ⟨List.mem_cons_self, sendSession_firstIsOld hown hs⟩
      · obtain ⟨hin, hposted⟩ := sendDataPackets_firstIsOld hown1 hrest hr s hmem
        refine ⟨List.mem_cons_of_mem _ hin, hposted.imp_right ?_⟩
        refine FirstIsOld.of_sendSession hown hs ?_
        rintro rfl
        exact hk hin

end Node

namespace Context

variable {c : Core} {sid w : Nat}

/-- In every run whose clock does not go back and whose ring has room for the windows of the ACKs: a call of
`sendDataPackets` posts a packet of a session only when every packet in the window of the session is at least
`recv_rto_` old. New fragments wait for it as well. -/
theorem sends_when_all_are_old {cfg : Config} {c0 : Core} {es : List Event} {ts : Nat} {order : List Nat}
    {draw : Nat → Nat → Post} (hw : kWndSize ≤ w) (hcap : w < cfg.queueCapacity) (hshort : w < 2 ^ 16)
    (h0 : start cfg = some c0) (hrun : Runs.Run step (fun c e => ok c e ∧ AcksWithin w sid c e) c0 es c)
    (hclock : (es.filterMap sendTime ++ [ts]).Pairwise (· ≤ ·)) (hts : ts < 2 ^ 64)
    (hok : ok c (.sendData ts order draw)) (hsent : dataBy c sid (.sendData ts order draw) ≠ []) :
    ∃ q, c.packetManager.sendQueue sid = some q ∧
      ∀ i, q.tail ≤ i → i < q.ring.head → c.recvRto ≤ ts - (q.ring.getMutableEntry i).ts := by
  obtain ⟨hes, -, hlast⟩ := List.pairwise_append.1 hclock
  have hpaced : Paced w sid ts c :=
    .run (.start h0 hw hcap hshort) (le_trans (by decide) hw) hrun hes fun t ht => hlast t ht ts
      (List.mem_singleton_self ts)
  -- some packet of the session was posted
  have hfirst : Node.FirstIsOld ⟨c, .construct, .construct⟩ ts sid := by
    obtain ⟨m, hm⟩ := List.exists_mem_of_ne_nil _ hsent
    unfold dataBy at hm
    dsimp only at hm
    cases hr : Node.sendDataPackets ts draw order ⟨c, .construct, .construct⟩ with
    | none =>
      rw [hr] at hm
      exact (List.not_mem_nil hm).elim
    | some r =>
      obtain ⟨ret, n, log⟩ := r
      rw [hr] at hm
      obtain ⟨s, hmem, hm⟩ := List.mem_flatMap.1 hm
      obtain ⟨hlog, hk⟩ := List.mem_filter.1 hmem
      obtain ⟨i, hi, -⟩ := List.mem_filterMap.1 hm
      have hnodup : order.Nodup := (List.Perm.nodup_iff hok).2 c.activeSessionMap.nodupKeys
      obtain ⟨-, hnil | hold⟩ := Node.sendDataPackets_firstIsOld hpaced.own hnodup hr s hlog
      · rw [hnil] at hi
        exact (List.not_mem_nil hi).elim
      · rw [of_decide_eq_true hk] at hold
        exact hold
  obtain ⟨q, hq, hlt, hage⟩ := hfirst
  obtain ⟨q', hq', haging⟩ := hpaced.queue
  obtain rfl := Option.some.inj ((PacketManager.sendQueueAt_of_some hq).symm.trans hq')
  refine ⟨q, hq, fun i h1 h2 => ?_⟩
  have htail : (q.ring.getMutableEntry q.tail).ts ≤ ts := haging.latest q.tail le_rfl hlt
  rw [sub64_of_le htail (by omega)] at hage
  exact hage.trans (Nat.sub_le_sub_left (haging.ordered q.tail i le_rfl h1 h2) ts)

/-- Of four fragments two are acknowledged. The fourth was never sent and waits for the third, sent at 1000200, to be
248 old: nothing is posted at 1000400, and both at 1000500. -/
theorem sends_when_third_is_old :
    ∃ c0 c, start { smallConfig 256 with queueCapacity := 100, maxWrPerQp := 8 } = some c0 ∧
    Runs.Run step (fun c e => ok c e ∧ AcksWithin kWndSize 0 c e) c0
      [.setupConnection "b" 7 [1] [1] true, .send "b" [⟨100, 8⟩], .sendData 1000000 [0] fun _ _ => ⟨0, 4⟩,
        .arrive 1000100 (Exchange.arrivalOf 7 ⟨0, 1, 8, 1, 1000000, false, []⟩),
        .sendData 1000200 [0] fun _ _ => ⟨0, 4⟩,
        .arrive 1000300 (Exchange.arrivalOf 7 ⟨0, 1, 8, 2, 1000200, false, []⟩)] c ∧
    dataBy c 0 (.sendData 1000400 [0] fun _ _ => ⟨0, 4⟩) = [] ∧
    ((dataBy c 0 (.sendData 1000500 [0] fun _ _ => ⟨0, 4⟩)).map (·.index) = [2, 3] ∧
      ∃ q, c.packetManager.sendQueue 0 = some q ∧
        ∀ i, q.tail ≤ i → i < q.ring.head → c.recvRto ≤ 1000500 - (q.ring.getMutableEntry i).ts) := by
  obtain ⟨c0, c, h0, hrun, ht⟩ := Runs.exists_run_of_start step (fun c e => ok c e ∧ AcksWithin kWndSize 0 c e)
    (start { smallConfig 256 with queueCapacity := 100, maxWrPerQp := 8 })
    [.setupConnection "b" 7 [1] [1] true, .send "b" [⟨100, 8⟩], .sendData 1000000 [0] fun _ _ => ⟨0, 4⟩,
      .arrive 1000100 (Exchange.arrivalOf 7 ⟨0, 1, 8, 1, 1000000, false, []⟩), .sendData 1000200 [0] fun _ _ => ⟨0, 4⟩,
      .arrive 1000300 (Exchange.arrivalOf 7 ⟨0, 1, 8, 2, 1000200, false, []⟩)]
    (fun c : Core => decide ((dataBy c 0 (.sendData 1000400 [0] fun _ _ => ⟨0, 4⟩)).map (·.index) = [] ∧
      (dataBy c 0 (.sendData 1000500 [0] fun _ _ => ⟨0, 4⟩)).map (·.index) = [2, 3] ∧
      ok c (.sendData 1000500 [0] fun _ _ => ⟨0, 4⟩))) (by decide +kernel)
  obtain ⟨hnone, hboth, hok⟩ := of_decide_eq_true ht
  have hsent : dataBy c 0 (.sendData 1000500 [0] fun _ _ => ⟨0, 4⟩) ≠ [] := by
    intro hnil
    rw [hnil] at hboth
    cases hboth
  exact ⟨c0, c, h0, hrun, List.map_eq_nil_iff.1 hnone, hboth,
    sends_when_all_are_old le_rfl (by decide) (by decide) h0 hrun (by decide) (by decide) hok hsent⟩

end Context

end RapidTransfer
