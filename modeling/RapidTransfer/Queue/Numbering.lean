/-
Two counts of one thing. `fragment_id_` counts the fragments of a push by a division, `head_` counts them
as they are popped, and `last_sn` is taken from the first while the packets carry the second. They agree
exactly as long as every buffer that is pushed has a positive length that the division does not overflow on
and all the fragments together have a 64-bit number (`numbering_agrees_iff`): an empty buffer gives one
fragment and counts as none, and 2^64 fragments count as none again.
-/
import RapidTransfer.Queue.Ops

namespace RapidTransfer

namespace SecondaryQueue

/-- The division counts the fragments that are popped. -/
def Counted (f : Nat) (b : Buffer) : Prop := 0 < b.length ∧ b.length + f - 1 < 2 ^ 64

theorem countOf_eq_iff {f : Nat} (hf : 0 < f) (hf64 : f < 2 ^ 64) (b : Buffer) :
    countOf f b = pieceCount f b.length ↔ Counted f b := by
  unfold countOf pieceCount Counted
  constructor
  · intro h
    have hpos : 0 < b.length := by
      by_contra h0
      have hdiv : (b.length + f - 1) % 2 ^ 64 / f = 0 := Nat.div_eq_of_lt (lt_of_le_of_lt (Nat.mod_le _ _) (by omega))
      omega
    refine ⟨hpos, ?_⟩
    by_contra hge
    -- what the overflow takes away is more than one fragment
    have hmod : (b.length + f - 1) % 2 ^ 64 + f ≤ b.length + f - 1 := by omega
    have hdiv := Nat.div_le_div_right (c := f) hmod
    rw [Nat.add_div_right _ hf] at hdiv
    omega
  · rintro ⟨hpos, hlt⟩
    have hone : 1 ≤ (b.length + f - 1) / f := (Nat.one_le_div_iff hf).2 (by omega)
    rw [Nat.mod_eq_of_lt hlt]
    omega

theorem sum_countOf_eq_iff {f : Nat} (hf : 0 < f) (hf64 : f < 2 ^ 64) : ∀ bufs : List Buffer,
    (fragments f bufs).length = (bufs.map (countOf f)).sum ↔ ∀ b ∈ bufs, Counted f b
  | [] => by simp
  | b :: bufs => by
    have hle := countOf_le f b
    have hsum := sum_countOf_le f bufs
    rw [List.forall_mem_cons, ← countOf_eq_iff hf hf64, ← sum_countOf_eq_iff hf hf64 bufs]
    simp only [fragments_cons, List.length_append, length_pieces, List.map_cons, List.sum_cons]
    omega

end SecondaryQueue

/-- `bufs` were pushed so far: they are numbered by the division, and their fragments have a slot or wait. -/
structure Numbered (f : Nat) (bufs : List Buffer) (head : Nat) (s : SecondaryQueue) : Prop where
  size : s.fragmentSize = f
  wf : s.WF
  addrs : ∀ b ∈ s.pending, b.addr ≠ 0
  loaded : head + s.pending.length = (fragments f bufs).length
  numbered : s.fragmentId = (bufs.map (SecondaryQueue.countOf f)).sum % 2 ^ 64

namespace Numbered

variable {f head : Nat} {bufs : List Buffer} {s s' : SecondaryQueue}

theorem construct (hf : 0 < f) : Numbered f [] 0 (SecondaryQueue.construct f) :=
  ⟨rfl, SecondaryQueue.construct_wf hf, by simp, by simp, rfl⟩

theorem push (h : Numbered f bufs head s) {more : List Buffer} (hm : ∀ b ∈ more, b.addr ≠ 0) {ids : Nat × Nat}
    (hp : s.push more = some (ids, s')) : Numbered f (bufs ++ more) head s' := by
  obtain ⟨hsize, hid, hids⟩ := SecondaryQueue.push_some hp
  obtain ⟨hwf, hpend⟩ := SecondaryQueue.pending_push h.wf hp
  have hloaded := h.loaded
  refine ⟨hsize.trans h.size, hwf, fun b hb => ?_, ?_, ?_⟩
  · rw [hpend, List.mem_append] at hb
    rcases hb with hb | hb
    · exact h.addrs b hb
    · exact addr_ne_zero_of_mem_fragments hm b hb
  · rw [hpend, h.size, fragments_append, List.length_append, List.length_append]
    omega
  · rw [hid, hids, h.numbered, h.size, List.map_append, List.sum_append, Nat.mod_add_mod]

theorem pop (h : Numbered f bufs head s) (hne : s.hasRemainingFragment = true) :
    s.popFragment.1.addr ≠ 0 ∧ Numbered f bufs (head + 1) s.popFragment.2 := by
  rw [SecondaryQueue.hasRemainingFragment_iff h.wf.size] at hne
  obtain ⟨x, xs, hx⟩ := List.exists_cons_of_ne_nil hne
  obtain ⟨hpop, hwf, hpend⟩ := SecondaryQueue.popFragment_spec h.wf hx
  have hloaded := h.loaded
  rw [hx, List.length_cons] at hloaded
  refine ⟨hpop ▸ h.addrs x (hx ▸ List.mem_cons_self), s.popFragment_fields.2.trans h.size, hwf, fun b hb => ?_, ?_,
    s.popFragment_fields.1.trans h.numbered⟩
  · exact h.addrs b (hx ▸ List.mem_cons_of_mem x (hpend ▸ hb))
  · rw [hpend]
    omega

/-- Both counts agree when the division counted every buffer and 64 bits hold the sum. -/
theorem agrees_iff (h : Numbered f bufs head s) (hf64 : f < 2 ^ 64) :
    head + s.pending.length = s.fragmentId ↔
      (∀ b ∈ bufs, SecondaryQueue.Counted f b) ∧ (fragments f bufs).length < 2 ^ 64 := by
  -- the division never counts too many, so a sum that wrapped is too small
  have hle := SecondaryQueue.sum_countOf_le f bufs
  rw [h.loaded, h.numbered, ← SecondaryQueue.sum_countOf_eq_iff (h.size ▸ h.wf.size) hf64 bufs]
  omega

/-- The numbers of 24 bits agree also when the sum wrapped. -/
theorem shortSN_eq (h : Numbered f bufs head s) (hf64 : f < 2 ^ 64) (hc : ∀ b ∈ bufs, SecondaryQueue.Counted f b) :
    shortSN s.fragmentId = shortSN (head + s.pending.length) := by
  rw [h.loaded, h.numbered, (SecondaryQueue.sum_countOf_eq_iff (h.size ▸ h.wf.size) hf64 bufs).2 hc]
  unfold shortSN
  omega

end Numbered

namespace Queue

/-- The buffers that calls push. -/
def pushed (es : List QueueOp) : List Buffer :=
  es.flatMap fun e => match e with
    | .push bufs _ => bufs
    | _ => []

/-- Buffers are pushed with their addresses. -/
def nonNull : QueueOp → Prop
  | .push bufs _ => ∀ b ∈ bufs, b.addr ≠ 0
  | _ => True

instance : DecidablePred nonNull
  | .push bufs _ => inferInstanceAs (Decidable (∀ b ∈ bufs, b.addr ≠ 0))
  | .markCompleted .. => inferInstanceAs (Decidable True)
  | .setWndSize _ => inferInstanceAs (Decidable True)

theorem numbered_construct {kind : QueueKind} {raw : PacketHandle} {mtu cap wnd session : Nat} {q : Queue}
    (hf : 0 < fragmentSizeOf mtu) (h : construct kind raw mtu cap wnd session = some q) :
    Numbered (fragmentSizeOf mtu) [] q.head q.secondaryQueue := by
  obtain ⟨hhead, hsec⟩ := construct_start h
  rw [hhead, hsec]
  exact .construct hf

theorem numbered_push {f : Nat} {bufs more : List Buffer} {q q' : Queue} {pool : PacketBufferPool}
    {ret : Int} {sn : Nat} (h : Numbered f bufs q.head q.secondaryQueue) (hm : ∀ b ∈ more, b.addr ≠ 0)
    (hp : q.push more pool = some (ret, sn, q')) : Numbered f (bufs ++ more) q'.head q'.secondaryQueue :=
  push_rule (P := Numbered f (bufs ++ more)) (fun _ _ hx hne => (hx.pop hne).2)
    (fun _ _ hx hne hnull => absurd hnull (hx.pop hne).1) hp fun _ _ hs => h.push hm hs

theorem numbered_run {f : Nat} {q0 q : Queue} {es : List QueueOp} (h0 : Numbered f [] q0.head q0.secondaryQueue)
    (hrun : Runs.Run apply (fun _ e => nonNull e) q0 es q) : Numbered f (pushed es) q.head q.secondaryQueue := by
  induction hrun with
  | nil => exact h0
  | @snoc es q q' e _ hok hs ih =>
    have hpushed : pushed (es ++ [e]) = pushed es ++ pushed [e] := List.flatMap_append
    rw [hpushed]
    cases e with
    | push bufs pool =>
      obtain ⟨⟨ret, sn, q1⟩, hp, rfl⟩ := Option.map_eq_some_iff.1 hs
      have := numbered_push ih hok hp
      simpa [pushed] using this
    | markCompleted index p pool =>
      have := markCompleted_rule (P := Numbered f (pushed es)) (fun _ _ hx hne => (hx.pop hne).2)
        (fun _ _ hx hne hnull => absurd hnull (hx.pop hne).1) hs ih
      simpa [pushed] using this
    | setWndSize w =>
      cases hs
      obtain ⟨hhead, hsec, -⟩ := q.setWndSize_frame w
      rw [hhead, hsec]
      simpa [pushed] using ih

/-- In every run of calls with addresses, the index that the fragments reach is the one that `fragment_id_` gives
exactly when every buffer that was pushed was counted and there are fewer than 2^64 fragments; and `last_sn` is the
number of the index just after the last fragment when every buffer was counted. -/
theorem numbering_agrees_iff (kind : QueueKind) (raw : PacketHandle) (mtu cap wnd session : Nat)
    (hf : 0 < fragmentSizeOf mtu) (q0 q : Queue) (es : List QueueOp)
    (h0 : construct kind raw mtu cap wnd session = some q0) (hrun : Runs.Run apply (fun _ e => nonNull e) q0 es q) :
    (q.head + q.secondaryQueue.pending.length = q.secondaryQueue.fragmentId ↔
      (∀ b ∈ pushed es, SecondaryQueue.Counted (fragmentSizeOf mtu) b) ∧
        (fragments (fragmentSizeOf mtu) (pushed es)).length < 2 ^ 64) ∧
    ∀ bufs pool ret sn q', (∀ b ∈ bufs, b.addr ≠ 0) → q.push bufs pool = some (ret, sn, q') →
      (∀ b ∈ pushed es ++ bufs, SecondaryQueue.Counted (fragmentSizeOf mtu) b) →
      sn = shortSN (q'.head + q'.secondaryQueue.pending.length) := by
  have hf64 : fragmentSizeOf mtu < 2 ^ 64 := Nat.mod_lt _ (by norm_num)
  have hnum := numbered_run (numbered_construct hf h0) hrun
  refine ⟨hnum.agrees_iff hf64, ?_⟩
  intro bufs pool ret sn q' hnull hp hcounted
  rw [push_lastSn hp]
  exact (numbered_push hnum hnull hp).shortSN_eq hf64 hcounted

/-- A small send queue, with fragments of two bytes. -/
def smallQueue : Option Queue := construct .send ⟨0, 0, 0, 0, 0, false, false, false, none, 0, 0⟩ 50 4 2 0

/-- An empty buffer takes an index and no number: the number of the next push is short by one. -/
theorem empty_buffer_uncounted : ∃ q0 q q', smallQueue = some q0 ∧
    Runs.Run apply (fun _ e => nonNull e) q0 [.push [⟨100, 0⟩] ⟨[0, 1]⟩] q ∧
    q.head + q.secondaryQueue.pending.length = 1 ∧ q.secondaryQueue.fragmentId = 0 ∧
    q.push [⟨100, 2⟩] ⟨[1]⟩ = some (0, 1, q') ∧ q'.head + q'.secondaryQueue.pending.length = 2 := by
  obtain ⟨q0, q, h0, hrun, ht⟩ := Runs.exists_run_of_start apply (fun _ e => nonNull e) smallQueue
    [.push [⟨100, 0⟩] ⟨[0, 1]⟩]
    (fun q => decide (q.head + q.secondaryQueue.pending.length = 1 ∧ q.secondaryQueue.fragmentId = 0) &&
      (q.push [⟨100, 2⟩] ⟨[1]⟩).any fun r : Int × Nat × Queue =>
        decide (r.1 = 0 ∧ r.2.1 = 1 ∧ r.2.2.head + r.2.2.secondaryQueue.pending.length = 2)) (by decide +kernel)
  obtain ⟨h1, h2⟩ := Bool.and_eq_true_iff.1 ht
  obtain ⟨⟨ret, sn, q'⟩, hp, hq'⟩ := (Option.any_eq_true _ _).1 h2
  obtain ⟨hloaded, hid⟩ := of_decide_eq_true h1
  obtain ⟨rfl, rfl, hq'⟩ := of_decide_eq_true hq'
  exact ⟨q0, q, q', h0, hrun, hloaded, hid, hp, hq'⟩

/-- Five bytes are three fragments, of which two have a slot after the pool ran out. -/
theorem three_fragments_numbered : ∃ q0 q, smallQueue = some q0 ∧
    Runs.Run apply (fun _ e => nonNull e) q0 [.push [⟨100, 5⟩] ⟨[0, 1]⟩, .setWndSize 1] q ∧ q.head = 2 ∧
    q.head + q.secondaryQueue.pending.length = q.secondaryQueue.fragmentId := by
  obtain ⟨q0, q, h0, hrun, ht⟩ := Runs.exists_run_of_start apply (fun _ e => nonNull e) smallQueue
    [.push [⟨100, 5⟩] ⟨[0, 1]⟩, .setWndSize 1] (fun q => decide (q.head = 2)) (by decide +kernel)
  refine ⟨q0, q, h0, hrun, of_decide_eq_true ht, ?_⟩
  refine (numbering_agrees_iff .send _ 50 4 2 0 (by decide) q0 q _ h0 hrun).1.2 ⟨fun b hb => ?_, by decide⟩
  obtain rfl : b = ⟨100, 5⟩ := by simpa [pushed] using hb
  exact ⟨by decide, by decide⟩

end Queue

end RapidTransfer
