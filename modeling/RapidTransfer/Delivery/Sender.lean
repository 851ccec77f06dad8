/-
The sending side of a transfer: what a send ring holds while buffers are pushed and a tail moves up
behind `head_`. `SenderInv` relates the ring to the fragments of everything pushed so far: the
secondary queue has exactly those from `head_` on, and the slot of every index between the tail and
`head_` carries that index's fragment. The tail is a parameter, so that the unicast queue (`tail_`)
and the multicast queue (the minimum of its tails) share the invariant.
-/
import RapidTransfer.Queue.Send

namespace RapidTransfer

/-- The handle carries fragment `i` of `frags`: its 24-bit number and its payload range. -/
def Carries (frags : List Buffer) (i : Nat) (h : PacketHandle) : Prop :=
  h.sn = shortSN i ∧ ∃ b, frags[i]? = some b ∧ h.dataBuf = b.addr ∧ h.dataLen = b.length % 2 ^ 32

/-- The sender's ring after pushing `bufs`, with everything below `tail` acknowledged. -/
structure SenderInv (f : Nat) (bufs : List Buffer) (tail : Nat) (r : SendRing) : Prop where
  size : r.secondaryQueue.fragmentSize = f
  wf : r.secondaryQueue.WF
  addrs : ∀ b ∈ bufs, b.addr ≠ 0
  pend : r.secondaryQueue.pending = (fragments f bufs).drop r.head
  headLe : r.head ≤ (fragments f bufs).length
  wndCap : r.wndSize < r.queueCapacity
  wnd16 : r.wndSize < 2 ^ 16
  tailLe : tail ≤ r.head
  lenCap : r.head ≤ tail + r.queueCapacity
  len16 : r.head ≤ tail + 2 ^ 16
  slots : Ring.Holds r.handle r.queueCapacity tail r.head (Carries (fragments f bufs))

theorem Carries.append {frags more : List Buffer} {i : Nat} {h : PacketHandle} (hc : Carries frags i h) :
    Carries (frags ++ more) i h := by
  obtain ⟨hsn, b, hb, h1, h2⟩ := hc
  exact ⟨hsn, b, by rw [List.getElem?_append_left (List.getElem?_eq_some_iff.1 hb).1]; exact hb, h1, h2⟩

namespace SenderInv

variable {f tail : Nat} {bufs : List Buffer} {r : SendRing}

theorem construct {raw : PacketHandle} {mtu cap wnd session : Nat} {r : SendRing}
    (hc : SendRing.construct raw mtu cap wnd session = some r) (hf : 0 < fragmentSizeOf mtu)
    (hw : wnd < cap) : SenderInv (fragmentSizeOf mtu) [] 0 r := by
  unfold SendRing.construct at hc
  rw [if_pos (by omega)] at hc
  cases hc
  refine ⟨rfl, SecondaryQueue.construct_wf hf, by simp, by simp, by simp, ?_, Nat.mod_lt _ (by norm_num), le_refl _,
    by simp, by simp, fun i _ hi => absurd hi (by simp)⟩
  exact lt_of_le_of_lt (Nat.mod_le _ _) hw

/-- The room test compares the true distance of `head_` and the tail. -/
theorem sub64_eq (h : SenderInv f bufs tail r) : sub64 r.head tail = r.head - tail :=
  sub64_of_le h.tailLe (by have := h.len16; omega)

/-- The next fragment, when the loop has room for one. -/
theorem next (h : SenderInv f bufs tail r) (hroom : r.hasRoom tail = true) :
    ∃ b, (fragments f bufs)[r.head]? = some b ∧ (r.secondaryQueue.popFragment).1 = b ∧
      (r.secondaryQueue.popFragment).2.WF ∧
      (r.secondaryQueue.popFragment).2.pending = (fragments f bufs).drop (r.head + 1) ∧
      r.head - tail ≤ r.wndSize := by
  unfold SendRing.hasRoom at hroom
  simp only [Bool.and_eq_true, decide_eq_true_eq] at hroom
  obtain ⟨hne, hle⟩ := hroom
  rw [SecondaryQueue.hasRemainingFragment_iff h.wf.size, h.pend, ne_eq, List.drop_eq_nil_iff, not_le] at hne
  have hp := h.pend
  rw [List.drop_eq_getElem_cons hne] at hp
  obtain ⟨h1, h2, h3⟩ := SecondaryQueue.popFragment_spec h.wf hp
  exact ⟨_, List.getElem?_eq_getElem hne, h1, h2, h3, by rw [h.sub64_eq] at hle; exact hle⟩

/-- Giving the next fragment its slot. -/
theorem append (h : SenderInv f bufs tail r) (hroom : r.hasRoom tail = true) {hd hd' : PacketHandle}
    (hload : r.load hd = some hd') : SenderInv f bufs tail (r.append hd') := by
  obtain ⟨b, hb, hpop, hwf, hpend, hle⟩ := h.next hroom
  have hlt := (List.getElem?_eq_some_iff.1 hb).1
  have hw := h.wndCap
  have hw16 := h.wnd16
  have htl := h.tailLe
  refine ⟨(SecondaryQueue.popFragment_fields _).2.trans h.size, hwf, h.addrs, hpend, hlt, h.wndCap, h.wnd16,
    ?_, ?_, ?_, ?_⟩
  · simp only [SendRing.append]; omega
  · simp only [SendRing.append]; omega
  · simp only [SendRing.append]; omega
  · refine h.slots.push (by omega) ?_
    rw [SendRing.load_eq hload, hpop]
    exact ⟨rfl, b, hb, rfl, rfl⟩

/-- Every payload is accepted: the fragments have addresses. -/
theorem load (h : SenderInv f bufs tail r) (hroom : r.hasRoom tail = true) {hd : PacketHandle}
    (hbuf : hd.packetBuf.isSome = true) : r.load hd ≠ none := by
  obtain ⟨b, hb, hpop, -⟩ := h.next hroom
  refine SendRing.load_ne_none hbuf ?_
  rw [hpop]
  exact addr_ne_zero_of_mem_fragments h.addrs b (List.mem_of_getElem? hb)

/-- The fill loop keeps the invariant, whatever the pool hands out. -/
theorem fill (h : SenderInv f bufs tail r) (fuel : Nat) (pool : PacketBufferPool) :
    SenderInv f bufs tail (SendRing.fill tail fuel r pool).2.1 :=
  SendRing.fill_rule (fun _ _ _ _ _ hr hroom _ hload => hr.append hroom hload)
    (fun _ _ _ _ hr hroom hc hload => absurd hload (hr.load hroom (SendRing.claimBuffer_some hc))) fuel r pool h

/-- The buffers of a push wait in the secondary queue. -/
theorem push (h : SenderInv f bufs tail r) {more : List Buffer} (hm : ∀ b ∈ more, b.addr ≠ 0)
    {ids : Nat × Nat} {sq : SecondaryQueue} (hp : r.secondaryQueue.push more = some (ids, sq)) :
    SenderInv f (bufs ++ more) tail { r with secondaryQueue := sq } := by
  obtain ⟨hwf, hpend⟩ := SecondaryQueue.pending_push h.wf hp
  have hlen := h.headLe
  refine ⟨(SecondaryQueue.push_some hp).1.trans h.size, hwf, ?_, ?_, ?_, h.wndCap, h.wnd16, h.tailLe, h.lenCap,
    h.len16, ?_⟩
  · intro b hb
    rcases List.mem_append.1 hb with hb | hb
    · exact h.addrs b hb
    · exact hm b hb
  · rw [hpend, h.pend, h.size, fragments_append, List.drop_append_of_le_length hlen]
  · simp only [fragments_append, List.length_append]; omega
  · rw [fragments_append]
    exact h.slots.mono fun i a _ _ hc => hc.append

/-- The tail moves up behind `head_`. -/
theorem raise (h : SenderInv f bufs tail r) {tail' : Nat} (h1 : tail ≤ tail') (h2 : tail' ≤ r.head) :
    SenderInv f bufs tail' r := by
  have hc := h.lenCap
  have h16 := h.len16
  exact ⟨h.size, h.wf, h.addrs, h.pend, h.headLe, h.wndCap, h.wnd16, h2, by omega, by omega, h.slots.narrow h1⟩

theorem setWndSize (h : SenderInv f bufs tail r) {w : Nat} (hw : (r.setWndSize w).wndSize < r.queueCapacity) :
    SenderInv f bufs tail (r.setWndSize w) := by
  refine ⟨h.size, h.wf, h.addrs, h.pend, h.headLe, hw, ?_, h.tailLe, h.lenCap, h.len16, h.slots⟩
  simp only [SendRing.setWndSize]; omega

/-- A transmission stamps the slot of a live index with its time. -/
theorem setTs (h : SenderInv f bufs tail r) {i : Nat} (h1 : tail ≤ i) (h2 : i < r.head) (ts : Nat) :
    SenderInv f bufs tail (r.setTs i ts) := by
  refine ⟨h.size, h.wf, h.addrs, h.pend, h.headLe, h.wndCap, h.wnd16, h.tailLe, h.lenCap, h.len16, ?_⟩
  exact h.slots.update h.lenCap h1 h2 (h.slots i h1 h2) fun _ _ _ hc => hc

/-! ## The queues -/

theorem fillPrimaryQueue {q : SendQueue} (h : SenderInv f bufs q.tail q.ring) (pool : PacketBufferPool) :
    SenderInv f bufs (q.fillPrimaryQueue pool).2.1.tail (q.fillPrimaryQueue pool).2.1.ring ∧
      (q.fillPrimaryQueue pool).2.1.tail = q.tail ∧ q.ring.head ≤ (q.fillPrimaryQueue pool).2.1.ring.head :=
  ⟨h.fill (q.ring.wndSize + 1) pool, rfl, (SendRing.fill_frame q.tail (q.ring.wndSize + 1) q.ring pool).2.2.2.2⟩

theorem mcastFillPrimaryQueue {q : McastSendQueue} (h : SenderInv f bufs q.getMinTailIndex q.ring)
    (pool : PacketBufferPool) :
    SenderInv f bufs (q.fillPrimaryQueue pool).2.1.getMinTailIndex (q.fillPrimaryQueue pool).2.1.ring ∧
      (q.fillPrimaryQueue pool).2.1.tailList = q.tailList ∧ q.ring.head ≤ (q.fillPrimaryQueue pool).2.1.ring.head :=
  ⟨h.fill (q.ring.wndSize + 1) pool, rfl,
    (SendRing.fill_frame q.getMinTailIndex (q.ring.wndSize + 1) q.ring pool).2.2.2.2⟩

/-- `push` of the unicast queue. -/
theorem sendQueue_push {q q' : SendQueue} (h : SenderInv f bufs q.tail q.ring) {more : List Buffer}
    (hm : ∀ b ∈ more, b.addr ≠ 0) {pool pool' : PacketBufferPool} {ret : Int} {sn : Nat}
    (hp : q.push more pool = some (ret, sn, q', pool')) :
    SenderInv f (bufs ++ more) q'.tail q'.ring ∧ q'.tail = q.tail ∧ q.ring.head ≤ q'.ring.head := by
  obtain ⟨ids, sq, hsq, -, hfill⟩ := SendQueue.push_some hp
  have := fillPrimaryQueue (q := { q with ring := { q.ring with secondaryQueue := sq } }) (h.push hm hsq) pool
  rwa [hfill] at this

/-- `push` of the multicast queue. -/
theorem mcastSendQueue_push {q q' : McastSendQueue} (h : SenderInv f bufs q.getMinTailIndex q.ring)
    {more : List Buffer} (hm : ∀ b ∈ more, b.addr ≠ 0) {pool pool' : PacketBufferPool} {ret : Int} {sn : Nat}
    (hp : q.push more pool = some (ret, sn, q', pool')) :
    SenderInv f (bufs ++ more) q'.getMinTailIndex q'.ring ∧ q'.tailList = q.tailList ∧
      q.ring.head ≤ q'.ring.head := by
  obtain ⟨ids, sq, hsq, -, hfill⟩ := McastSendQueue.push_some hp
  have := mcastFillPrimaryQueue (q := { q with ring := { q.ring with secondaryQueue := sq } }) (h.push hm hsq) pool
  rwa [hfill] at this

/-- An acknowledgement whose value is at most `head_` and less than `2^24` below it moves a tail to
that value, and never back. -/
theorem ackTail_eq {head tail value : Nat} (h : tail ≤ head) (h16 : head ≤ tail + 2 ^ 16) (hv : value ≤ head)
    (hage : head < value + 2 ^ 24) : ackTail tail head (shortSN value) = max tail value := by
  rw [ackTail_eq_unwrap]
  exact Serial.unwrap_mod h (by omega) hv hage

/-- `markCompleted` of the unicast queue. -/
theorem sendQueue_markCompleted {q : SendQueue} (h : SenderInv f bufs q.tail q.ring) {value : Nat}
    (hv : value ≤ q.ring.head) (hage : q.ring.head < value + 2 ^ 24) (pool : PacketBufferPool) :
    SenderInv f bufs (q.markCompleted (shortSN value) pool).2.1.tail (q.markCompleted (shortSN value) pool).2.1.ring ∧
      (q.markCompleted (shortSN value) pool).2.1.tail = max q.tail value ∧
      q.ring.head ≤ (q.markCompleted (shortSN value) pool).2.1.ring.head := by
  have htail := ackTail_eq h.tailLe h.len16 hv hage
  have hraise : SenderInv f bufs (ackTail q.tail q.ring.head (shortSN value)) q.ring := by
    rw [htail]; exact h.raise (le_max_left _ _) (max_le h.tailLe hv)
  obtain ⟨h1, h2, h3⟩ := fillPrimaryQueue
    (q := { q with tail := ackTail q.tail q.ring.head (shortSN value) }) hraise pool
  exact ⟨h1, h2.trans htail, h3⟩

end SenderInv

end RapidTransfer
