/-
The receiving side of a transfer. `ReceiverInv` relates a receive queue to the fragments of
everything posted so far and to the set `got` of the indices received: the slot of every index
between `tail_` and `head_` is the request for that index's fragment, outstanding exactly while the
index is not received; no other slot is outstanding; everything below `tail_` is received.

`markCompleted_inv` is what one packet does, for any 24-bit sequence number: nothing, or the
reception of one index of the window that was not received before.
-/
import RapidTransfer.Queue.Receive

namespace RapidTransfer

/-- The request for fragment `i` of `frags`, outstanding until `i` is received. -/
def Requests (frags : List Buffer) (got : Nat → Prop) (i : Nat) (r : RecvRequest) : Prop :=
  (∃ b, frags[i]? = some b ∧ r.addr = b.addr ∧ r.length = b.length) ∧ (r.inflight = false ↔ got i)

/-- The receiver's queue after posting `bufs` and receiving the indices of `got`. -/
structure ReceiverInv (f : Nat) (bufs : List Buffer) (got : Nat → Prop) (q : ReceiveQueue) : Prop where
  size : q.secondaryQueue.fragmentSize = f
  wf : q.secondaryQueue.WF
  pend : q.secondaryQueue.pending = (fragments f bufs).drop q.head
  headLe : q.head ≤ (fragments f bufs).length
  capDvd : q.queueCapacity ∣ 2 ^ 24
  wndCap : q.wndSize < q.queueCapacity
  wnd16 : q.wndSize < 2 ^ 16
  tailLe : q.tail ≤ q.head
  lenCap : q.head ≤ q.tail + q.queueCapacity
  len16 : q.head ≤ q.tail + 2 ^ 16
  slots : Ring.Holds q.requests q.queueCapacity q.tail q.head (Requests (fragments f bufs) got)
  idle : ∀ k, (q.requests k).inflight = true → ∃ i, q.tail ≤ i ∧ i < q.head ∧ i % q.queueCapacity = k
  low : ∀ i < q.tail, got i
  high : ∀ i, got i → i < q.head

namespace ReceiverInv

variable {f : Nat} {bufs : List Buffer} {got : Nat → Prop} {q : ReceiveQueue}

theorem construct {mtu cap wnd session : Nat} {q : ReceiveQueue}
    (hc : ReceiveQueue.construct mtu cap wnd session = some q) (hf : 0 < fragmentSizeOf mtu)
    (hw : wnd < cap) (hd : cap ∣ 2 ^ 24) : ReceiverInv (fragmentSizeOf mtu) [] (fun _ => False) q := by
  unfold ReceiveQueue.construct at hc
  rw [if_pos (by omega)] at hc
  cases hc
  exact ⟨rfl, SecondaryQueue.construct_wf hf, by simp, by simp, hd, lt_of_le_of_lt (Nat.mod_le _ _) hw,
    Nat.mod_lt _ (by norm_num), le_refl _, by simp, by simp, fun i _ hi => absurd hi (by simp), by simp, by simp,
    by simp⟩

theorem sub64_eq (h : ReceiverInv f bufs got q) : sub64 q.head q.tail = q.head - q.tail :=
  sub64_of_le h.tailLe (by have := h.len16; omega)

/-! ## The loops -/

/-- Posting the next fragment. -/
theorem post (h : ReceiverInv f bufs got q) (hroom : q.hasRoom = true) : ReceiverInv f bufs got q.post := by
  unfold ReceiveQueue.hasRoom at hroom
  simp only [Bool.and_eq_true, decide_eq_true_eq] at hroom
  obtain ⟨hne, hle⟩ := hroom
  rw [SecondaryQueue.hasRemainingFragment_iff h.wf.size, h.pend, ne_eq, List.drop_eq_nil_iff, not_le] at hne
  rw [h.sub64_eq] at hle
  have hp := h.pend
  rw [List.drop_eq_getElem_cons hne] at hp
  obtain ⟨hpop, hwf, hpend⟩ := SecondaryQueue.popFragment_spec h.wf hp
  have hw := h.wndCap
  have hw16 := h.wnd16
  have htl := h.tailLe
  refine ⟨(SecondaryQueue.popFragment_fields _).2.trans h.size, hwf, hpend, hne, h.capDvd, h.wndCap, h.wnd16,
    ?_, ?_, ?_, ?_, ?_, h.low, fun i hi => ?_⟩
  · simp only [ReceiveQueue.post]; omega
  · simp only [ReceiveQueue.post]; omega
  · simp only [ReceiveQueue.post]; omega
  · refine h.slots.push (by omega) ⟨⟨_, List.getElem?_eq_getElem hne, by rw [hpop], by rw [hpop]⟩, ?_⟩
    constructor
    · intro hf; cases hf
    · intro hg; exact absurd (h.high _ hg) (lt_irrefl _)
  · intro k hk
    simp only [ReceiveQueue.post] at hk ⊢
    by_cases hkh : k = q.head % q.queueCapacity
    · exact ⟨q.head, htl, by omega, hkh.symm⟩
    · rw [Ring.set_of_ne _ _ hkh] at hk
      obtain ⟨i, h1, h2, h3⟩ := h.idle k hk
      exact ⟨i, h1, by omega, h3⟩
  · have := h.high i hi
    simp only [ReceiveQueue.post]; omega

/-- Moving `tail_` over a request that is done. -/
theorem step (h : ReceiverInv f bufs got q) (hne : q.tail ≠ q.head)
    (hdone : (q.requests (q.tail % q.queueCapacity)).inflight = false) :
    ReceiverInv f bufs got { q with tail := q.tail + 1 } := by
  have htl := h.tailLe
  have hc := h.lenCap
  have h16 := h.len16
  refine ⟨h.size, h.wf, h.pend, h.headLe, h.capDvd, h.wndCap, h.wnd16, by simp only; omega, by simp only; omega,
    by simp only; omega, h.slots.narrow (Nat.le_succ _), fun k hk => ?_, fun i hi => ?_, h.high⟩
  · obtain ⟨i, h1, h2, h3⟩ := h.idle k hk
    have : i ≠ q.tail := by
      rintro rfl
      rw [h3] at hdone
      simp only [hdone] at hk; cases hk
    exact ⟨i, by simp only; omega, h2, h3⟩
  · by_cases hit : i = q.tail
    · subst hit
      exact (h.slots q.tail (le_refl _) (by omega)).2.1 hdone
    · exact h.low i (by simp only at hi; omega)

/-- The end of `markCompleted` keeps the invariant and never moves `tail_` back. -/
theorem settle (h : ReceiverInv f bufs got q) : ReceiverInv f bufs got q.settle ∧ q.tail ≤ q.settle.tail := by
  have hadv := ReceiveQueue.advance_rule (P := fun q' => ReceiverInv f bufs got q' ∧ q.tail ≤ q'.tail)
    (fun q' hq hne hd => ⟨hq.1.step hne hd, by have := hq.2; simp only; omega⟩)
    (sub64 q.head q.tail) q ⟨h, le_refl _⟩
  exact ReceiveQueue.fill_rule (P := fun q' => ReceiverInv f bufs got q' ∧ q.tail ≤ q'.tail)
    (fun q' hq hroom => ⟨hq.1.post hroom, hq.2⟩) _ _ hadv

theorem push (h : ReceiverInv f bufs got q) {more : List Buffer} {ret : Int} {sn : Nat} {q' : ReceiveQueue}
    (hp : q.push more = some (ret, sn, q')) : ReceiverInv f (bufs ++ more) got q' ∧ q'.tail = q.tail := by
  obtain ⟨ids, sq, hs, -, -, rfl⟩ := ReceiveQueue.push_some hp
  obtain ⟨hwf, hpend⟩ := SecondaryQueue.pending_push h.wf hs
  have hlen := h.headLe
  have hq : ReceiverInv f (bufs ++ more) got { q with secondaryQueue := sq } := by
    refine ⟨(SecondaryQueue.push_some hs).1.trans h.size, hwf, ?_, ?_, h.capDvd, h.wndCap, h.wnd16, h.tailLe,
      h.lenCap, h.len16, ?_, h.idle, h.low, h.high⟩
    · rw [hpend, h.pend, h.size, fragments_append, List.drop_append_of_le_length hlen]
    · simp only [fragments_append, List.length_append]; omega
    · rw [fragments_append]
      refine h.slots.mono fun i a _ _ hr => ⟨?_, hr.2⟩
      obtain ⟨b, hb, hab⟩ := hr.1
      exact ⟨b, by rw [List.getElem?_append_left (List.getElem?_eq_some_iff.1 hb).1]; exact hb, hab⟩
  exact ReceiveQueue.fill_rule (P := fun q' => ReceiverInv f (bufs ++ more) got q' ∧ q'.tail = q.tail)
    (fun q' hq hroom => ⟨hq.1.post hroom, hq.2⟩) _ _ ⟨hq, rfl⟩

theorem setWndSize (h : ReceiverInv f bufs got q) {w : Nat} (hw : (q.setWndSize w).wndSize < q.queueCapacity) :
    ReceiverInv f bufs got (q.setWndSize w) := by
  refine ⟨h.size, h.wf, h.pend, h.headLe, h.capDvd, hw, ?_, h.tailLe, h.lenCap, h.len16, h.slots, h.idle, h.low,
    h.high⟩
  simp only [ReceiveQueue.setWndSize]; omega

/-! ## One packet -/

/-- An outstanding request that a sequence number in the window designates is the one of the
index of the window with that number. -/
theorem designates (h : ReceiverInv f bufs got q) {sn : Nat} (hsn : sn < 2 ^ 24) (hw : q.inWindow sn = true)
    (hf : (q.requestOf sn).inflight = true) :
    ∃ i b, q.tail ≤ i ∧ i < q.head ∧ i < q.tail + q.wndSize ∧ shortSN i = sn ∧ ¬ got i ∧
      (fragments f bufs)[i]? = some b ∧ (q.requestOf sn).addr = b.addr ∧ (q.requestOf sn).length = b.length := by
  have hcap := Nat.le_of_dvd (by norm_num) h.capDvd
  have hwc := h.wndCap
  rw [ReceiveQueue.inWindow_eq, Serial.inWindow_iff (by omega) hsn] at hw
  obtain ⟨i, h1, h2, rfl⟩ := hw
  have hslot : q.requestOf (i % 2 ^ 24) = q.requests (i % q.queueCapacity) := by
    unfold ReceiveQueue.requestOf; rw [Nat.mod_mod_of_dvd _ h.capDvd]
  rw [hslot] at hf ⊢
  -- the outstanding slot belongs to a live index, and both are less than the capacity above `tail_`
  obtain ⟨j, hj1, hj2, hj3⟩ := h.idle _ hf
  have hlc := h.lenCap
  have hij : j = i := Serial.eq_of_mod_eq hj3 (by omega) (by omega)
  subst hij
  obtain ⟨⟨b, hb, ha, hl⟩, hg⟩ := h.slots j h1 hj2
  have hnew : ¬ got j := by
    intro hgot
    rw [hg.2 hgot] at hf; cases hf
  exact ⟨j, b, h1, hj2, h2, rfl, hnew, hb, ha, hl⟩

/-- The designated request is received. -/
theorem complete (h : ReceiverInv f bufs got q) {p : Packet} {i : Nat} (h1 : q.tail ≤ i) (h2 : i < q.head)
    (hsn : shortSN i = p.sn) : ReceiverInv f bufs (fun j => got j ∨ j = i) (q.complete p) := by
  have hslot : p.sn % q.queueCapacity = i % q.queueCapacity := by
    rw [← hsn]; exact Nat.mod_mod_of_dvd _ h.capDvd
  have hreq : q.requestOf p.sn = q.requests (i % q.queueCapacity) := by
    unfold ReceiveQueue.requestOf; rw [hslot]
  refine ⟨h.size, h.wf, h.pend, h.headLe, h.capDvd, h.wndCap, h.wnd16, h.tailLe, h.lenCap, h.len16, ?_, fun k hk => ?_,
    fun j hj => .inl (h.low j hj), fun j hj => ?_⟩
  · simp only [ReceiveQueue.complete, hslot, hreq]
    refine h.slots.update h.lenCap h1 h2 ⟨(h.slots i h1 h2).1, by simp⟩ fun j b hji hb => ⟨hb.1, ?_⟩
    rw [hb.2]; simp [hji]
  · simp only [ReceiveQueue.complete] at hk ⊢
    by_cases hks : k = p.sn % q.queueCapacity
    · subst hks; rw [Ring.set_same] at hk; cases hk
    · rw [Ring.set_of_ne _ _ hks] at hk; exact h.idle k hk
  · rcases hj with hj | rfl
    · exact h.high j hj
    · exact h2

/-- What one packet can do to a receive queue. -/
theorem markCompleted_inv (h : ReceiverInv f bufs got q) {p : Packet} (hsn : p.sn < 2 ^ 24) {q' : ReceiveQueue}
    {mv : Option MemMove} (hm : q.markCompleted p = some (q', mv)) :
    q.tail ≤ q'.tail ∧
    ((mv = none ∧ ReceiverInv f bufs got q') ∨
      ∃ i b, q.tail ≤ i ∧ i < q.head ∧ i < q.tail + q.wndSize ∧ shortSN i = p.sn ∧ ¬ got i ∧
        (fragments f bufs)[i]? = some b ∧ mv = some ⟨b.addr, p.payload⟩ ∧ p.payload.length = b.length ∧
        ReceiverInv f bufs (fun j => got j ∨ j = i) q') := by
  rcases ReceiveQueue.markCompleted_cases hm with ⟨-, rfl, rfl⟩ | ⟨-, -, rfl, rfl⟩ | ⟨hw, hf, hl, rfl, rfl⟩
  · exact ⟨le_refl _, .inl ⟨rfl, h⟩⟩
  · exact ⟨h.settle.2, .inl ⟨rfl, h.settle.1⟩⟩
  · obtain ⟨i, b, h1, h2, h3, h4, h5, h6, ha, hb⟩ := h.designates hsn hw hf
    have hc := (h.complete h1 h2 h4).settle
    exact ⟨hc.2, .inr ⟨i, b, h1, h2, h3, h4, h5, h6, by rw [ha], by rw [hl, hb], hc.1⟩⟩

/-- A packet makes the queue abort only by its length, against an index of the window not yet
received. -/
theorem markCompleted_abort (h : ReceiverInv f bufs got q) {p : Packet} (hsn : p.sn < 2 ^ 24)
    (hm : q.markCompleted p = none) :
    ∃ i b, q.tail ≤ i ∧ i < q.head ∧ i < q.tail + q.wndSize ∧ shortSN i = p.sn ∧
      (fragments f bufs)[i]? = some b ∧ p.payload.length ≠ b.length := by
  obtain ⟨hw, hf, hl⟩ := ReceiveQueue.markCompleted_eq_none.1 hm
  obtain ⟨i, b, h1, h2, h3, h4, -, h6, -, hb⟩ := h.designates hsn hw hf
  exact ⟨i, b, h1, h2, h3, h4, h6, by rw [← hb]; exact hl⟩

end ReceiverInv

end RapidTransfer
