/-
A push that a send queue rejects. `push` appends the buffers and counts their fragments before the fill loop looks at
them, and the loop takes a fragment out of the secondary queue before `setPayload` refuses its null address. So an
error return comes with a fragment lost, fragments counted that will never have a slot, and whatever slots the loop
filled before it: later pushes are told indices that `head_` does not reach (`rejected_push_counts`).

`push_intact_iff` says when a push keeps its promise. The fragments the loop gets to are the first `slotsOpen` of those
that wait and those of the push; the promise is kept if none of them is null. It is also kept when the loss cannot be
seen (`Unseen`), which takes a fragment size or a buffer so large that the division counts no fragment.
-/
import RapidTransfer.Queue.Ops
import RapidTransfer.Queue.Stream

namespace RapidTransfer

/-- A fragment that `setPayload` refuses. -/
def Buffer.isNull (b : Buffer) : Bool := decide (b.addr = 0 ∧ b.length ≠ 0)

/-! ## Queues that yield what they hold -/

namespace SecondaryQueue

/-- A queue that yields its fragments, or one without room for payload, which holds nothing. -/
structure Sound (s : SecondaryQueue) : Prop where
  yields : s.WF ∨ (s.fragmentSize = 0 ∧ s.sliceList = [])
  id64 : s.fragmentId < 2 ^ 64

theorem sound_construct (f : Nat) : (construct f).Sound := by
  refine ⟨?_, Nat.two_pow_pos 64⟩
  rcases Nat.eq_zero_or_pos f with rfl | hf
  · exact .inr ⟨rfl, rfl⟩
  · exact .inl (construct_wf hf)

theorem Sound.push {s s' : SecondaryQueue} (h : s.Sound) {bufs : List Buffer} {ids : Nat × Nat}
    (hp : s.push bufs = some (ids, s')) : s'.Sound := by
  obtain ⟨-, hid, hids⟩ := push_some hp
  refine ⟨?_, by rw [hid, hids]; exact Nat.mod_lt _ (Nat.two_pow_pos 64)⟩
  rcases h.yields with hwf | ⟨hz, hnil⟩
  · exact .inl (pending_push hwf hp).1
  · obtain ⟨-, rfl⟩ := push_of_size_zero hz hp
    exact .inr ⟨hz, hnil⟩

theorem Sound.pop {s : SecondaryQueue} (h : s.Sound) (hrem : s.hasRemainingFragment = true) :
    s.popFragment.2.Sound := by
  refine ⟨?_, by rw [s.popFragment_fields.1]; exact h.id64⟩
  rcases h.yields with hwf | ⟨-, hnil⟩
  · obtain ⟨x, xs, hp⟩ := List.exists_cons_of_ne_nil ((hasRemainingFragment_iff hwf.size).1 hrem)
    exact .inl (popFragment_spec hwf hp).2.1
  · rw [hasRemainingFragment, hnil] at hrem
    cases hrem

end SecondaryQueue

namespace SendRing

/-! ## How far the fill loop gets -/

/-- The slots from `head` on that the window and the pool leave to the loop. `owned` are the slots with a packet
buffer, `free` is how many the pool has. -/
def room (tail wndSize queueCapacity : Nat) : Nat → Nat → (Nat → Bool) → Nat → Nat
  | 0, _, _, _ => 0
  | fuel + 1, head, owned, free =>
    if sub64 head tail ≤ wndSize then
      if owned (head % queueCapacity) then room tail wndSize queueCapacity fuel (head + 1) owned free + 1
      else if free = 0 then 0
      else room tail wndSize queueCapacity fuel (head + 1) (Ring.set owned (head % queueCapacity) true) (free - 1) + 1
    else 0

/-- The slots with a packet buffer. -/
def owned (r : SendRing) (k : Nat) : Bool := (r.handle k).packetBuf.isSome

/-- The slots open to the fill loop. -/
def slotsOpen (r : SendRing) (tail fuel : Nat) (pool : PacketBufferPool) : Nat :=
  room tail r.wndSize r.queueCapacity fuel r.head r.owned pool.freeBuffers.length

variable {tail fuel : Nat} {r : SendRing} {pool : PacketBufferPool}

/-- No room in the window, or no buffer to be had. -/
theorem slotsOpen_succ_of_closed
    (h : ¬sub64 r.head tail ≤ r.wndSize ∨ claimBuffer (r.getMutableEntry r.head) pool = none) :
    r.slotsOpen tail (fuel + 1) pool = 0 := by
  unfold slotsOpen room
  rcases h with hwnd | hclaim
  · rw [if_neg hwnd]
  · unfold claimBuffer at hclaim
    split at hclaim
    · cases hclaim
    · rename_i hb
      have hfree : pool.freeBuffers = [] := PacketBufferPool.allocatePacket_eq_none.1 hclaim
      have hown : ¬r.owned (r.head % r.queueCapacity) = true := hb
      rw [if_neg hown, hfree, if_pos List.length_nil, ite_self]

/-- A slot that can be had, and those behind it. -/
theorem slotsOpen_succ_of_open (hwnd : sub64 r.head tail ≤ r.wndSize) {h h' : PacketHandle} {pool' : PacketBufferPool}
    (hclaim : claimBuffer (r.getMutableEntry r.head) pool = some (h, pool')) (hb : h'.packetBuf.isSome = true) :
    r.slotsOpen tail (fuel + 1) pool = (r.append h').slotsOpen tail fuel pool' + 1 := by
  have howned : (r.append h').owned = Ring.set r.owned (r.head % r.queueCapacity) true := by
    funext k
    simp only [owned, append, Ring.set]
    split
    · exact hb
    · rfl
  unfold slotsOpen
  rw [howned, room, if_pos hwnd]
  unfold claimBuffer at hclaim
  split at hclaim
  · -- the slot has its buffer already
    rename_i hown
    cases hclaim
    have hself : Ring.set r.owned (r.head % r.queueCapacity) true = r.owned := by
      funext k
      simp only [Ring.set]
      split
      · rename_i hk
        rw [hk]
        exact hown.symm
      · rfl
    rw [if_pos (show r.owned (r.head % r.queueCapacity) = true from hown), hself]
    rfl
  · rename_i hown
    unfold PacketBufferPool.allocatePacket at hclaim
    split at hclaim
    · cases hclaim
    · rename_i slot rest hfree
      cases hclaim
      rw [if_neg (show ¬r.owned (r.head % r.queueCapacity) = true from hown), hfree,
        if_neg (by simp only [List.length_cons]; omega)]
      rfl

/-- `setPayload` refuses the null fragments and no other. -/
theorem load_eq_none_iff {h : PacketHandle} (hb : h.packetBuf.isSome = true) :
    r.load h = none ↔ (r.secondaryQueue.popFragment).1.isNull = true := by
  unfold load PacketHandle.setPayload Buffer.isNull
  rw [if_neg (by simp only [stamp]; intro hn; rw [hn] at hb; cases hb), decide_eq_true_eq]
  split
  · rename_i hnull
    exact iff_of_true rfl hnull
  · rename_i hnull
    exact iff_of_false (Option.some_ne_none _) hnull

theorem isNull_of_load {h h' : PacketHandle} (hb : h.packetBuf.isSome = true) (hl : r.load h = some h') :
    (r.secondaryQueue.popFragment).1.isNull = false := by
  by_contra hne
  rw [Bool.not_eq_false, ← load_eq_none_iff hb, hl] at hne
  cases hne

theorem load_packetBuf {h h' : PacketHandle} (hl : r.load h = some h') : h'.packetBuf = h.packetBuf := by
  rw [load_eq hl]
  rfl

/-! ## What the fill loop returns -/

theorem hasRoom_of_pending (hwf : r.secondaryQueue.WF) {x : Buffer} {xs : List Buffer}
    (hp : r.secondaryQueue.pending = x :: xs) (hwnd : sub64 r.head tail ≤ r.wndSize) : r.hasRoom tail = true := by
  rw [hasRoom, Bool.and_eq_true, SecondaryQueue.hasRemainingFragment_iff hwf.size, hp, decide_eq_true_eq]
  exact ⟨List.cons_ne_nil x xs, hwnd⟩

/-- The loop fails iff one of the fragments it gets to is null. -/
theorem fill_ret (tail : Nat) : ∀ (fuel : Nat) (r : SendRing) (pool : PacketBufferPool), r.secondaryQueue.WF →
    (fill tail fuel r pool).1 =
      if (r.secondaryQueue.pending.take (r.slotsOpen tail fuel pool)).any Buffer.isNull then -1 else 0
  | 0, r, pool, _ => rfl
  | fuel + 1, r, pool, hwf => by
    unfold fill
    cases hp : r.secondaryQueue.pending with
    | nil =>
      have hrem : r.secondaryQueue.hasRemainingFragment = false := by
        by_contra hne
        exact (SecondaryQueue.hasRemainingFragment_iff hwf.size).1 (by simpa using hne) hp
      simp [hasRoom, hrem]
    | cons x xs =>
      by_cases hwnd : sub64 r.head tail ≤ r.wndSize
      · rw [if_pos (hasRoom_of_pending hwf hp hwnd)]
        obtain ⟨hx, hwf', hxs⟩ := SecondaryQueue.popFragment_spec hwf hp
        cases hclaim : claimBuffer (r.getMutableEntry r.head) pool with
        | none =>
          rw [slotsOpen_succ_of_closed (.inr hclaim)]
          rfl
        | some c =>
          obtain ⟨h, pool'⟩ := c
          have hb := claimBuffer_some hclaim
          cases hload : r.load h with
          | none =>
            have hnull := (load_eq_none_iff hb).1 hload
            rw [hx] at hnull
            rw [slotsOpen_succ_of_open hwnd hclaim hb, List.take_succ_cons, List.any_cons, hnull]
            simp only [hload, Bool.true_or, if_true]
          | some h' =>
            have hnull := isNull_of_load hb hload
            rw [hx] at hnull
            have hb' : h'.packetBuf.isSome = true := by rw [load_packetBuf hload]; exact hb
            rw [slotsOpen_succ_of_open hwnd hclaim hb', List.take_succ_cons, List.any_cons, hnull, Bool.false_or]
            have hrest := fill_ret tail fuel (r.append h') pool' hwf'
            rw [show (r.append h').secondaryQueue.pending = xs from hxs] at hrest
            simp only [hload]
            exact hrest
      · rw [slotsOpen_succ_of_closed (.inl hwnd), if_neg (by simp [hasRoom, hwnd])]
        rfl

/-- When the loop fails, the first fragment is lost and nothing else has happened, or slots were filled. -/
theorem fill_rejects (hwf : r.secondaryQueue.WF) (hret : (fill tail fuel r pool).1 ≠ 0) :
    ∃ x xs h pool', r.secondaryQueue.pending = x :: xs ∧
      claimBuffer (r.getMutableEntry r.head) pool = some (h, pool') ∧
      ((x.isNull = true ∧ (fill tail fuel r pool).2.1 = r.spoil (r.stamp h) ∧
        (r.spoil (r.stamp h)).secondaryQueue.pending = xs ∧ (r.spoil (r.stamp h)).secondaryQueue.WF) ∨
      (x.isNull = false ∧ r.head < (fill tail fuel r pool).2.1.head)) := by
  cases fuel with
  | zero => exact absurd rfl hret
  | succ fuel =>
    unfold fill at hret ⊢
    by_cases hroom : r.hasRoom tail = true
    · rw [if_pos hroom] at hret ⊢
      have hne := (SecondaryQueue.hasRemainingFragment_iff hwf.size).1 (Bool.and_eq_true_iff.1 hroom).1
      obtain ⟨x, xs, hp⟩ := List.exists_cons_of_ne_nil hne
      obtain ⟨hx, hwf', hxs⟩ := SecondaryQueue.popFragment_spec hwf hp
      cases hclaim : claimBuffer (r.getMutableEntry r.head) pool with
      | none => rw [hclaim] at hret; exact absurd rfl hret
      | some c =>
        obtain ⟨h, pool'⟩ := c
        have hb := claimBuffer_some hclaim
        refine ⟨x, xs, h, pool', hp, rfl, ?_⟩
        cases hload : r.load h with
        | none => exact .inl ⟨by rw [← hx]; exact (load_eq_none_iff hb).1 hload, by simp only [hload], hxs, hwf'⟩
        | some h' =>
          refine .inr ⟨by rw [← hx]; exact isNull_of_load hb hload, ?_⟩
          have hle := (fill_frame tail fuel (r.append h') pool').2.2.2.2
          simp only [hload]
          exact Nat.lt_of_succ_le hle
    · rw [if_neg hroom] at hret
      exact absurd rfl hret

/-! ## A push on a ring -/

/-- The ring as the caller of a rejected push should find it: `head_`, the bytes that wait and the fragment counter, and
the slots of the live indices. -/
structure Intact (tail : Nat) (r r' : SendRing) : Prop where
  head : r'.head = r.head
  bytes : r'.secondaryQueue.remainder = r.secondaryQueue.remainder
  fragmentId : r'.secondaryQueue.fragmentId = r.secondaryQueue.fragmentId
  slots : ∀ i, tail ≤ i → i < r.head → r'.getMutableEntry i = r.getMutableEntry i

/-- The fragments of a push come behind those that wait. -/
def queued (r : SendRing) (bufs : List Buffer) : List Buffer :=
  r.secondaryQueue.pending ++ fragments r.secondaryQueue.fragmentSize bufs

/-- No fragment that the loop gets to is null. -/
def NullFree (tail : Nat) (r : SendRing) (bufs : List Buffer) (pool : PacketBufferPool) : Prop :=
  ∀ x ∈ (r.queued bufs).take (r.slotsOpen tail (r.wndSize + 1) pool), x.isNull = false

instance (tail : Nat) (r : SendRing) (bufs : List Buffer) (pool : PacketBufferPool) :
    Decidable (NullFree tail r bufs pool) :=
  inferInstanceAs (Decidable (∀ x ∈ _, _))

/-- A loss that cannot be seen: the first fragment is null and it is the loop's, the bytes behind it are those that
waited before, the division counted none of the buffers, and the header written to the slot of `head_` is the one a
live index has there, if one has its slot there. -/
def Unseen (tail : Nat) (r : SendRing) (bufs : List Buffer) (pool : PacketBufferPool) : Prop :=
  (∃ x xs, r.queued bufs = x :: xs ∧ x.isNull = true ∧ 0 < r.slotsOpen tail (r.wndSize + 1) pool ∧
    xs.flatMap Buffer.range = r.secondaryQueue.remainder) ∧
  (bufs.map (SecondaryQueue.countOf r.secondaryQueue.fragmentSize)).sum % 2 ^ 64 = 0 ∧
  ∀ h pool', claimBuffer (r.getMutableEntry r.head) pool = some (h, pool') →
    ∀ i, tail ≤ i → i < r.head → i % r.queueCapacity = r.head % r.queueCapacity → r.stamp h = r.getMutableEntry i

/-- The secondary queue that a push leaves to the loop. -/
structure Pushed (r : SendRing) (bufs : List Buffer) (s : SecondaryQueue) : Prop where
  wf : s.WF
  pending : s.pending = r.queued bufs
  fragmentId : s.fragmentId = (r.secondaryQueue.fragmentId +
    (bufs.map (SecondaryQueue.countOf r.secondaryQueue.fragmentSize)).sum) % 2 ^ 64
  id64 : r.secondaryQueue.fragmentId < 2 ^ 64

theorem pushed_of_push (hwf : r.secondaryQueue.WF)
    (h64 : r.secondaryQueue.fragmentId < 2 ^ 64) {bufs : List Buffer} {ids : Nat × Nat} {s : SecondaryQueue}
    (hp : r.secondaryQueue.push bufs = some (ids, s)) : r.Pushed bufs s := by
  obtain ⟨hwf', hpend⟩ := SecondaryQueue.pending_push hwf hp
  obtain ⟨-, hid, hids⟩ := SecondaryQueue.push_some hp
  exact ⟨hwf', hpend, hid.trans hids, h64⟩

/-- The loss of the first fragment, seen from before the push. -/
theorem intact_spoil_iff (tail : Nat) {bufs : List Buffer} {s : SecondaryQueue}
    (hp : r.Pushed bufs s) {h : PacketHandle}
    {xs : List Buffer} (hwf : s.popFragment.2.WF) (hxs : s.popFragment.2.pending = xs) :
    Intact tail r (spoil { r with secondaryQueue := s } (r.stamp h)) ↔
      xs.flatMap Buffer.range = r.secondaryQueue.remainder ∧
      (bufs.map (SecondaryQueue.countOf r.secondaryQueue.fragmentSize)).sum % 2 ^ 64 = 0 ∧
      ∀ i, tail ≤ i → i < r.head → i % r.queueCapacity = r.head % r.queueCapacity →
        r.stamp h = r.getMutableEntry i := by
  have hbytes : s.popFragment.2.remainder = xs.flatMap Buffer.range := by
    rw [← SecondaryQueue.flatMap_range_pending hwf.size, hxs]
  have hid : s.popFragment.2.fragmentId = (r.secondaryQueue.fragmentId +
      (bufs.map (SecondaryQueue.countOf r.secondaryQueue.fragmentSize)).sum) % 2 ^ 64 :=
    s.popFragment_fields.1.trans hp.fragmentId
  have h64 := hp.id64
  have hslot : ∀ i, getMutableEntry (spoil { r with secondaryQueue := s } (r.stamp h)) i =
      if i % r.queueCapacity = r.head % r.queueCapacity then r.stamp h else r.getMutableEntry i := fun i => rfl
  constructor
  · rintro ⟨-, hb, hf, hs⟩
    refine ⟨hbytes.symm.trans hb, ?_, fun i h1 h2 hi => ?_⟩
    · have hf' : s.popFragment.2.fragmentId = r.secondaryQueue.fragmentId := hf
      omega
    · rw [← hs i h1 h2, hslot, if_pos hi]
  · rintro ⟨hb, hzero, hs⟩
    refine ⟨rfl, hbytes.trans hb, ?_, fun i h1 h2 => ?_⟩
    · show s.popFragment.2.fragmentId = r.secondaryQueue.fragmentId
      omega
    · rw [hslot]
      split
      · rename_i hi
        exact hs i h1 h2 hi
      · rfl

/-- A push fails iff the loop gets to a null fragment. -/
theorem Pushed.fails_iff {bufs : List Buffer} {s : SecondaryQueue} (hp : r.Pushed bufs s) (tail : Nat)
    (pool : PacketBufferPool) :
    (fill tail (r.wndSize + 1) { r with secondaryQueue := s } pool).1 ≠ 0 ↔ ¬NullFree tail r bufs pool := by
  have hret := fill_ret tail (r.wndSize + 1) { r with secondaryQueue := s } pool hp.wf
  have hopen : slotsOpen { r with secondaryQueue := s } tail (r.wndSize + 1) pool =
      r.slotsOpen tail (r.wndSize + 1) pool := rfl
  rw [show SecondaryQueue.pending s = r.queued bufs from hp.pending, hopen] at hret
  rw [hret, NullFree]
  split
  · rename_i hany
    obtain ⟨x, hx, hnull⟩ := List.any_eq_true.1 hany
    refine iff_of_true (by decide) fun hfree => ?_
    rw [hfree x hx] at hnull
    cases hnull
  · rename_i hany
    refine iff_of_false (fun h => h rfl) fun hnot => hnot fun x hx => ?_
    by_contra hne
    exact hany (List.any_eq_true.2 ⟨x, hx, by simpa using hne⟩)

/-- It takes a slot to get to a null fragment. -/
theorem slotsOpen_pos {bufs : List Buffer} (h : ¬NullFree tail r bufs pool) :
    0 < r.slotsOpen tail (r.wndSize + 1) pool := by
  by_contra hzero
  refine h fun x hx => ?_
  rw [Nat.eq_zero_of_not_pos hzero] at hx
  cases hx

/-- A push that fails leaves the ring intact iff the loss cannot be seen. -/
theorem Pushed.intact_iff {bufs : List Buffer} {s : SecondaryQueue} (hp : r.Pushed bufs s) (tail : Nat)
    (pool : PacketBufferPool) :
    ((fill tail (r.wndSize + 1) { r with secondaryQueue := s } pool).1 ≠ 0 →
        Intact tail r (fill tail (r.wndSize + 1) { r with secondaryQueue := s } pool).2.1) ↔
      NullFree tail r bufs pool ∨ Unseen tail r bufs pool := by
  have hfails := hp.fails_iff tail pool
  by_cases hnull : NullFree tail r bufs pool
  · exact iff_of_true (fun hne => absurd hnull (hfails.1 hne)) (.inl hnull)
  · have hfail := hfails.2 hnull
    obtain ⟨x, xs, h, pool', hpend, hclaim, hcase⟩ := fill_rejects hp.wf hfail
    have hqueued : r.queued bufs = x :: xs := hp.pending.symm.trans hpend
    have hclaim' : claimBuffer (r.getMutableEntry r.head) pool = some (h, pool') := hclaim
    rw [or_iff_right hnull, imp_iff_right hfail]
    rcases hcase with ⟨hx, hfill, hxs, hwf⟩ | ⟨hx, hlt⟩
    · -- the first fragment is lost
      have hintact := intact_spoil_iff tail (h := h) hp hwf hxs
      rw [hfill]
      refine hintact.trans ⟨?_, ?_⟩
      · rintro ⟨hbytes, hsum, hslots⟩
        refine ⟨⟨x, xs, hqueued, hx, slotsOpen_pos hnull, hbytes⟩, hsum, fun h2 pool2 hc => ?_⟩
        rw [hclaim'] at hc
        cases hc
        exact hslots
      · rintro ⟨⟨x', xs', hq, -, -, hbytes⟩, hsum, hslots⟩
        rw [hqueued] at hq
        cases hq
        exact ⟨hbytes, hsum, hslots h pool' hclaim'⟩
    · -- slots were filled, so `head_` has moved
      refine iff_of_false (fun hintact => absurd hintact.head (ne_of_gt hlt)) ?_
      rintro ⟨⟨x', xs', hq, hx', -⟩, -⟩
      rw [hqueued] at hq
      cases hq
      rw [hx] at hx'
      cases hx'

/-- The same for any secondary queue that a send queue can have. -/
theorem push_intact_iff_ring (tail : Nat) (pool : PacketBufferPool) (hsound : r.secondaryQueue.Sound)
    {bufs : List Buffer} {ids : Nat × Nat} {s : SecondaryQueue} (hs : r.secondaryQueue.push bufs = some (ids, s)) :
    ((fill tail (r.wndSize + 1) { r with secondaryQueue := s } pool).1 ≠ 0 →
        Intact tail r (fill tail (r.wndSize + 1) { r with secondaryQueue := s } pool).2.1) ↔
      NullFree tail r bufs pool ∨ Unseen tail r bufs pool := by
  rcases hsound.yields with hwf | ⟨hz, hnil⟩
  · exact (pushed_of_push hwf hsound.id64 hs).intact_iff tail pool
  · -- nothing waits and nothing is pushed
    obtain ⟨rfl, rfl⟩ := SecondaryQueue.push_of_size_zero hz hs
    refine iff_of_true (fun hne => absurd ?_ hne) (.inl fun x hx => ?_)
    · simp [fill, hasRoom, SecondaryQueue.hasRemainingFragment, hnil]
    · simp [queued, SecondaryQueue.pending, hnil] at hx

/-- Where neither the division nor the sum wraps, no loss is unseen: a buffer that counts for nothing has no bytes. -/
theorem not_unseen {bufs : List Buffer} (hwf : r.secondaryQueue.WF)
    (hcount : ∀ b ∈ bufs, b.length + r.secondaryQueue.fragmentSize ≤ 2 ^ 64)
    (htotal : (fragments r.secondaryQueue.fragmentSize bufs).length < 2 ^ 64) : ¬Unseen tail r bufs pool := by
  rintro ⟨⟨x, xs, hq, hx, -, hbytes⟩, hmod, -⟩
  have hsum : (bufs.map (SecondaryQueue.countOf r.secondaryQueue.fragmentSize)).sum = 0 := by
    have := SecondaryQueue.sum_countOf_le r.secondaryQueue.fragmentSize bufs
    omega
  have hempty : bufs.flatMap Buffer.range = [] := by
    rw [List.flatMap_eq_nil_iff]
    intro b hb
    have hzero : SecondaryQueue.countOf r.secondaryQueue.fragmentSize b = 0 :=
      List.sum_eq_zero_iff.1 hsum _ (List.mem_map_of_mem hb)
    have hb64 := hcount b hb
    have hf := hwf.size
    unfold SecondaryQueue.countOf at hzero
    rw [Nat.mod_eq_of_lt (by omega), Nat.div_eq_zero_iff] at hzero
    rw [Buffer.range, show b.length = 0 by omega]
    rfl
  -- the bytes that wait are the lost ones and those that wait
  have hall : (r.queued bufs).flatMap Buffer.range = r.secondaryQueue.remainder := by
    rw [queued, List.flatMap_append, SecondaryQueue.flatMap_range_pending hwf.size, flatMap_range_fragments hwf.size,
      hempty, List.append_nil]
  rw [hq, List.flatMap_cons, hbytes] at hall
  have hnil : x.range = [] := List.append_left_eq_self.1 hall
  rw [Buffer.range, List.range'_eq_nil_iff] at hnil
  exact (of_decide_eq_true hx).2 hnil

end SendRing

/-! ## The two queues -/

namespace Queue

theorem sound_apply {q q' : Queue} {op : QueueOp} (h : q.secondaryQueue.Sound) (hs : q.apply op = some q') :
    q'.secondaryQueue.Sound := by
  have hpop := fun (_ : Nat) (s : SecondaryQueue) (hs : s.Sound) (hrem : s.hasRemainingFragment = true) => hs.pop hrem
  cases op with
  | push bufs pool =>
    obtain ⟨⟨ret, sn, q1⟩, hp, rfl⟩ := Option.map_eq_some_iff.1 hs
    exact push_rule (P := fun _ s => s.Sound) hpop (fun n s hs hrem _ => hpop n s hs hrem) hp fun _ _ hs => h.push hs
  | markCompleted index p pool =>
    exact markCompleted_rule (P := fun _ s => s.Sound) hpop (fun n s hs hrem _ => hpop n s hs hrem) hs h
  | setWndSize w =>
    cases hs
    rw [(setWndSize_frame q w).2.1]
    exact h

/-- In every state of a send queue, of either kind: a push that fails leaves the queue as it was iff the fill loop gets
to no null fragment, or the loss cannot be seen. -/
theorem push_intact_iff {kind : QueueKind} {raw : PacketHandle} {mtuSize queueCapacity wndSize session : Nat}
    {q0 q : Queue} {ops : List QueueOp} (h0 : construct kind raw mtuSize queueCapacity wndSize session = some q0)
    (h : Runs.Run apply (fun _ _ => True) q0 ops q) (bufs : List Buffer) (pool : PacketBufferPool) :
    (∀ sq ret sn sq' pool', q = .send sq → sq.push bufs pool = some (ret, sn, sq', pool') →
      ((ret ≠ 0 → sq'.tail = sq.tail ∧ SendRing.Intact sq.tail sq.ring sq'.ring) ↔
        SendRing.NullFree sq.tail sq.ring bufs pool ∨ SendRing.Unseen sq.tail sq.ring bufs pool)) ∧
    ∀ mq ret sn mq' pool', q = .mcast mq → mq.push bufs pool = some (ret, sn, mq', pool') →
      ((ret ≠ 0 → mq'.tailList = mq.tailList ∧ SendRing.Intact mq.getMinTailIndex mq.ring mq'.ring) ↔
        SendRing.NullFree mq.getMinTailIndex mq.ring bufs pool ∨
          SendRing.Unseen mq.getMinTailIndex mq.ring bufs pool) := by
  have hstart : q0.secondaryQueue.Sound := by
    rw [(construct_start h0).2]
    exact SecondaryQueue.sound_construct _
  have hsound : q.secondaryQueue.Sound :=
    h.invariant (P := fun q => q.secondaryQueue.Sound) hstart fun _ _ _ hq _ hs => sound_apply hq hs
  constructor
  · rintro sq ret sn sq' pool' rfl hp
    obtain ⟨ids, s, hs, -, hfill⟩ := SendQueue.push_some hp
    have hiff := SendRing.push_intact_iff_ring sq.tail pool hsound hs
    rw [show ret = _ from congrArg Prod.fst hfill.symm, show sq'.ring = _ from congrArg (·.2.1.ring) hfill.symm,
      and_iff_right (SendQueue.push_tail hp)]
    exact hiff
  · rintro mq ret sn mq' pool' rfl hp
    obtain ⟨ids, s, hs, -, hfill⟩ := McastSendQueue.push_some hp
    have hiff := SendRing.push_intact_iff_ring mq.getMinTailIndex pool hsound hs
    rw [show ret = _ from congrArg Prod.fst hfill.symm, show mq'.ring = _ from congrArg (·.2.1.ring) hfill.symm,
      and_iff_right (McastSendQueue.push_tailList hp)]
    exact hiff

/-- The first push is refused and counted all the same: the next one is told index 2, and `head_` ends at 1. -/
theorem rejected_push_counts : ∃ q q1 q2 : SendQueue, ∃ pool1 pool2,
    SendQueue.construct ⟨0, 0, 0, 0, 0, false, false, false, none, 0, 0⟩ 50 4 2 0 = some q ∧
    q.push [⟨0, 2⟩] (.construct 4) = some (-1, 1, q1, pool1) ∧
    q1.ring.secondaryQueue.fragmentId ≠ q.ring.secondaryQueue.fragmentId ∧
    q1.push [⟨100, 2⟩] pool1 = some (0, 2, q2, pool2) ∧ q2.ring.head = 1 ∧
    q2.ring.secondaryQueue.hasRemainingFragment = false :=
  ⟨_, _, _, _, _, rfl, rfl, by decide, rfl, rfl, rfl⟩

/-- With no packet left in the pool the push does not get to its null buffer. -/
theorem push_intact_of_empty_pool : ∃ q q' pool',
    construct .send ⟨0, 0, 0, 0, 0, false, false, false, none, 0, 0⟩ 50 4 2 0 = some (.send q) ∧
    q.push [⟨0, 2⟩] (.construct 0) = some (0, 1, q', pool') ∧
    ((0 : Int) ≠ 0 → q'.tail = q.tail ∧ SendRing.Intact q.tail q.ring q'.ring) :=
  ⟨_, _, _, rfl, rfl, ((push_intact_iff
    (show construct .send ⟨0, 0, 0, 0, 0, false, false, false, none, 0, 0⟩ 50 4 2 0 = some _ from rfl) .nil
    [⟨0, 2⟩] (.construct 0)).1 _ 0 1 _ _ rfl rfl).2 (.inl (by decide))⟩

end Queue

end RapidTransfer
