/-
The requests of a node. A request that `postSendRequest` does not take, because the queue pair is full or
the verb refuses it, is neither posted nor given back: `sendDataPackets` only compares the return value
with the size of its list, and the packet keeps the time it was stamped with. Which posts a call makes can
be read off the state before it: `dataPosts` and `ackPosts` list them, `takeAll` runs them against the
depths of the queue pairs. `requests_accounted` shows that nothing is lost exactly when every one of them
is taken whole.
-/
import RapidTransfer.Context.Buffers
import RapidTransfer.Context.Retransmit

namespace RapidTransfer

open RapidTransfer.Core RapidTransfer.Context

/-! ## Posts against the depths -/

namespace EndpointStore

/-- The depths of the queue pairs after a list of posts, each with its number of requests; `none` when one
of them is not taken whole. -/
def takeAll (maxWrDepth : Int) (numQp : Nat) : (Nat → Int) → List (Post × Nat) → Option (Nat → Int)
  | depth, [] => some depth
  | depth, (p, size) :: rest =>
    let qp := p.qpPick % numQp
    if depth qp + size ≤ maxWrDepth ∧ size ≤ p.accepted then
      takeAll maxWrDepth numQp (Function.update depth qp (depth qp + size)) rest
    else none

theorem takeAll_cons (m : Int) (n : Nat) (depth : Nat → Int) (p : Post) (size : Nat) (rest : List (Post × Nat)) :
    takeAll m n depth ((p, size) :: rest) =
      if depth (p.qpPick % n) + size ≤ m ∧ size ≤ p.accepted then
        takeAll m n (Function.update depth (p.qpPick % n) (depth (p.qpPick % n) + size)) rest
      else none := rfl

theorem takeAll_append (m : Int) (n : Nat) : ∀ (depth : Nat → Int) (ps qs : List (Post × Nat)),
    takeAll m n depth (ps ++ qs) = (takeAll m n depth ps).bind fun d => takeAll m n d qs
  | _, [], _ => rfl
  | depth, (p, size) :: ps, qs => by
    rw [List.cons_append, takeAll_cons, takeAll_cons]
    split
    · exact takeAll_append m n _ ps qs
    · rfl

variable {st st' : EndpointStore} {ep : Endpoint} {rs : List Request} {p : Post} {ret : Int}

/-- A post on a connected endpoint takes the whole list, or loses the end of it. -/
theorem postSendRequest_exact (hc : ep.connected = true) (hne : rs ≠ [])
    (h : st.postSendRequest ep rs p = some (ret, st')) :
    (takeAll st.maxWrDepth st.numQp st.sendWrDepth [(p, rs.length)] = some st'.sendWrDepth ∧ ret = rs.length ∧
      st'.outstanding.length = st.outstanding.length + rs.length) ∨
    (takeAll st.maxWrDepth st.numQp st.sendWrDepth [(p, rs.length)] = none ∧
      ∃ j < rs.length, st'.outstanding.length = st.outstanding.length + j) := by
  have hpos := List.length_pos_iff.2 hne
  unfold postSendRequest at h
  rw [hc] at h
  simp only [Bool.not_true, Bool.false_eq_true, if_false] at h
  split at h
  · cases h
  · unfold post at h
    simp only at h
    rw [takeAll_cons]
    split at h
    · -- the queue pair is full
      cases h
      rw [if_neg (by omega)]
      exact .inr ⟨rfl, 0, hpos, rfl⟩
    · split at h
      · cases h
      · cases h
        simp only [List.length_append, List.length_map, List.length_take]
        split
        · rename_i hroom
          have hwr : min (st.maxWrDepth - st.sendWrDepth (p.qpPick % st.numQp)) (rs.length : Int) = rs.length := by
            omega
          refine .inl ⟨?_, hwr, ?_⟩
          · rw [hwr, Int.toNat_natCast, Nat.min_eq_right hroom.2]
            rfl
          · rw [hwr, Int.toNat_natCast, Nat.min_eq_right hroom.2, Nat.min_self]
        · exact .inr ⟨rfl, _, by omega, rfl⟩

end EndpointStore

/-- The posts run against the queue pairs of the context. -/
def Core.takes (c : Core) (ps : List (Post × Nat)) : Option (Nat → Int) :=
  EndpointStore.takeAll c.endpointStore.maxWrDepth c.endpointStore.numQp c.endpointStore.sendWrDepth ps

/-- The first posts lead to another context with the same queue pairs; the others go on from there. -/
theorem Core.takes_append {c c' : Core} {ps : List (Post × Nat)} (h : c.takes ps = some c'.endpointStore.sendWrDepth)
    (hlimits : c'.endpointStore.maxWrDepth = c.endpointStore.maxWrDepth ∧
      c'.endpointStore.numQp = c.endpointStore.numQp) (qs : List (Post × Nat)) :
    c.takes (ps ++ qs) = c'.takes qs := by
  unfold Core.takes at h ⊢
  rw [EndpointStore.takeAll_append, h, Option.bind_some, hlimits.1, hlimits.2]

theorem Core.takes_append_of_none {c : Core} {ps : List (Post × Nat)} (h : c.takes ps = none) (qs : List (Post × Nat)) :
    c.takes (ps ++ qs) = none := by
  unfold Core.takes at h ⊢
  rw [EndpointStore.takeAll_append, h, Option.bind_none]

/-! ## The posts of a call -/

/-- The indices that are old enough, with nothing younger before them; a slot that was sent in this pass is
young. -/
def dueIndices (currentTs recvRto capacity : Nat) : (Nat → Nat) → List Nat → List Nat
  | _, [] => []
  | stamp, curr :: rest =>
    if sub64 currentTs (stamp (curr % capacity)) < recvRto then []
    else curr :: dueIndices currentTs recvRto capacity (Function.update stamp (curr % capacity) currentTs) rest

/-- The sizes of the posts for so many packets. -/
def batches (n : Nat) : List Nat :=
  List.replicate (n / kRequestBatchSize) kRequestBatchSize ++
    if n % kRequestBatchSize = 0 then [] else [n % kRequestBatchSize]

/-- Posts of the given sizes, with the draws from number `k` on. -/
def numbered (draw : Nat → Post) (k : Nat) (sizes : List Nat) : List (Post × Nat) :=
  (sizes.zipIdx k).map fun s => (draw s.2, s.1)

@[simp] theorem numbered_nil (draw : Nat → Post) (k : Nat) : numbered draw k [] = [] := rfl

@[simp] theorem numbered_cons (draw : Nat → Post) (k size : Nat) (sizes : List Nat) :
    numbered draw k (size :: sizes) = (draw k, size) :: numbered draw (k + 1) sizes := rfl

theorem batches_zero : batches 0 = [] := rfl

theorem batches_small {n : Nat} (h0 : 0 < n) (h : n < kRequestBatchSize) : batches n = [n] := by
  unfold batches
  rw [Nat.div_eq_of_lt h, Nat.mod_eq_of_lt h, if_neg (by omega)]
  rfl

theorem batches_add (n : Nat) : batches (kRequestBatchSize + n) = kRequestBatchSize :: batches n := by
  unfold batches
  rw [Nat.add_div_left n (by decide), Nat.add_mod_left, List.replicate_succ, List.cons_append]

/-- The posts of one session of `sendDataPackets`. -/
def sessionPosts (c : Core) (currentTs : Nat) (draw : Nat → Post) (sid : Nat) : List (Post × Nat) :=
  match c.activeSessionMap.lookup sid with
  | none => []
  | some e =>
    if sub64 currentTs e.lastSendTs < c.recvRto * 2 / 3 then []
    else
      match e.sendQueue.bind c.packetManager.sendQueue with
      | none => []
      | some q =>
        let stamp k := (q.ring.handle k).ts
        numbered draw 0
          (batches (dueIndices currentTs c.recvRto q.ring.queueCapacity stamp (sendRange q e)).length)

def dataPosts (c : Core) (currentTs : Nat) (draw : Nat → Nat → Post) (order : List Nat) : List (Post × Nat) :=
  order.flatMap fun sid => sessionPosts c currentTs (draw sid) sid

/-- The posts of `sendAckPackets`: one request for each session that owes an ACK. -/
def ackPosts (c : Core) (order : List (Nat × Post)) : List (Post × Nat) :=
  order.filterMap fun s =>
    (c.activeSessionMap.lookup s.1).bind fun e => if owesAck e then some (s.2, 1) else none

theorem ackPosts_cons {c : Core} {sid : Nat} {e : SessionInfo} (he : c.activeSessionMap.lookup sid = some e) (p : Post)
    (rest : List (Nat × Post)) :
    ackPosts c ((sid, p) :: rest) = (if owesAck e then [(p, 1)] else []) ++ ackPosts c rest := by
  unfold ackPosts
  rw [List.filterMap_cons]
  simp only [he, Option.bind_some]
  split
  · rename_i hnone
    split at hnone
    · cases hnone
    · rename_i howes
      rw [if_neg howes, List.nil_append]
  · rename_i hsome
    split at hsome
    · rename_i howes
      cases hsome
      rw [if_pos howes, List.singleton_append]
    · cases hsome

/-- The posts for sessions that are as they were. -/
theorem ackPosts_congr {c c' : Core} {order : List (Nat × Post)}
    (h : ∀ s ∈ order, c'.activeSessionMap.lookup s.1 = c.activeSessionMap.lookup s.1) :
    ackPosts c' order = ackPosts c order := by
  unfold ackPosts
  refine List.filterMap_congr fun s hs => ?_
  rw [h s hs]

/-! ## The loop over the packets -/

namespace Posting

variable {c : Core} {q : SendQueue} {s : RequestCache} {x x' : Posting} {ts sid curr : Nat} {draw : Nat → Post}
  {ep : Endpoint} {b : Bool}

/-- A packet gets its request, which goes to the end of the list. -/
def request (x : Posting) (l : Sending) (curr : Nat) : Posting :=
  { sending := { l with requestList := l.requestList ++ [⟨none⟩] }
    cache := x.cache.allocate
    ledger := ⟨x.ledger.stamped ++ [curr], x.ledger.allocated ++ [curr], x.ledger.held ++ [curr], x.ledger.posted⟩ }

/-- The name of the session's peer leads to a connected endpoint, the one that is used. -/
structure Aimed (sid : Nat) (ep : Endpoint) (l : Sending) : Prop where
  connected : ep.connected = true
  known : ∃ name, name ≠ "" ∧ l.core.controller.peerNameRevMap (sid / 256) = some name ∧
    l.core.endpointStore.endpointMap name = some ep
  endpoint : l.endpoint = none ∨ l.endpoint = some ep

theorem getOrCreateEndpoint_of_known {c : Core} (h : ∃ name, name ≠ "" ∧
      c.controller.peerNameRevMap (sid / 256) = some name ∧ c.endpointStore.endpointMap name = some ep) :
    c.getOrCreateEndpoint sid = (some ep, c) := by
  obtain ⟨name, hname, hrev, hep⟩ := h
  unfold Core.getOrCreateEndpoint EndpointStore.getOrCreateEndpoint
  simp only [hrev, if_neg hname, hep]

theorem Aimed.touch {l : Sending} (h : Aimed sid ep l) (ts curr : Nat) : Aimed sid ep (l.touch ts curr) := by
  unfold Sending.touch
  split
  · exact ⟨h.connected, h.known, h.endpoint⟩
  · exact ⟨h.connected, h.known, h.endpoint⟩

theorem Aimed.connect {l : Sending} (h : Aimed sid ep l) :
    l.connect sid = (some ep, { l with endpoint := some ep }) := by
  unfold Sending.connect
  rcases h.endpoint with he | he
  · simp only [he, getOrCreateEndpoint_of_known h.known]
  · simp only [he]
    rw [← he]

/-- Nothing was lost so far. -/
def Kept (x : Posting) : Prop := x.ledger.posted ++ x.ledger.held = x.ledger.stamped

/-- The bookkeeping of the loop: the counters move with the ledger. -/
structure Sound (c : Core) (q : SendQueue) (s : RequestCache) (x : Posting) : Prop where
  sending : Sending.Sound c q x.sending
  allocated : x.ledger.allocated = x.ledger.stamped
  inUse : x.cache.inUse = s.inUse + x.ledger.allocated.length
  posted : x.sending.core.endpointStore.outstanding.length =
    c.endpointStore.outstanding.length + x.ledger.posted.length
  held : x.ledger.held.length = x.sending.requestList.length
  kept : (x.ledger.posted ++ x.ledger.held).Sublist x.ledger.stamped
  limits : x.sending.core.endpointStore.maxWrDepth = c.endpointStore.maxWrDepth ∧
    x.sending.core.endpointStore.numQp = c.endpointStore.numQp

/-- The depths of the queue pairs. -/
abbrev depth (x : Posting) : Nat → Int := x.sending.core.endpointStore.sendWrDepth

/-- A flush takes the whole list, or loses the end of it; in any case the list is empty. -/
theorem flush_exact (hx : Sound c q s x) (ha : Aimed sid ep x.sending) (hne : x.sending.requestList ≠ [])
    (h : x.flush ep draw = some x') :
    Sound c q s x' ∧ Aimed sid ep x'.sending ∧ x'.sending.requestList = [] ∧ x'.sending.posts = x.sending.posts + 1 ∧
      x'.sending.queue = x.sending.queue ∧ x'.ledger.stamped = x.ledger.stamped ∧
      ((EndpointStore.takeAll c.endpointStore.maxWrDepth c.endpointStore.numQp x.depth
          [(draw x.sending.posts, x.sending.requestList.length)] = some x'.depth ∧
        x'.ledger.posted = x.ledger.posted ++ x.ledger.held) ∨
      (EndpointStore.takeAll c.endpointStore.maxWrDepth c.endpointStore.numQp x.depth
          [(draw x.sending.posts, x.sending.requestList.length)] = none ∧
        x'.ledger.posted.length < x.ledger.posted.length + x.ledger.held.length)) := by
  obtain ⟨l, hf, rfl⟩ := Option.map_eq_some_iff.1 h
  have hsound := hx.sending.flush hf
  obtain ⟨⟨ret, st⟩, hp, rfl⟩ := Option.map_eq_some_iff.1 hf
  obtain ⟨hmap, hmax, hnum⟩ := EndpointStore.postSendRequest_frame hp
  have hheld := hx.held
  have hexact := EndpointStore.postSendRequest_exact ha.connected hne hp
  rw [hx.limits.1, hx.limits.2] at hexact
  -- the requests that went out are the first `j` of the list
  obtain ⟨j, hj, ho⟩ : ∃ j ≤ x.ledger.held.length,
      st.outstanding.length = x.sending.core.endpointStore.outstanding.length + j := by
    obtain ⟨-, -, ho⟩ | ⟨-, j, hj, ho⟩ := hexact
    · exact ⟨_, hheld.ge, ho⟩
    · exact ⟨j, by omega, ho⟩
  have hgrow : st.outstanding.length - x.sending.core.endpointStore.outstanding.length = j := by omega
  simp only [Ledger.post, hgrow, true_and]
  refine ⟨⟨hsound, hx.allocated, hx.inUse, ?_, rfl, ?_, ?_⟩, ⟨ha.connected, ?_, ha.endpoint⟩, ?_⟩
  · simp only [List.length_append, List.length_take]
    rw [ho, hx.posted]
    omega
  · rw [List.append_nil]
    exact ((List.Sublist.refl _).append (List.take_sublist j _)).trans hx.kept
  · exact ⟨hmax.trans hx.limits.1, hnum.trans hx.limits.2⟩
  · simp only [hmap]
    exact ha.known
  · obtain ⟨htake, -, ho'⟩ | ⟨htake, k, hk, ho'⟩ := hexact
    · refine .inl ⟨htake, ?_⟩
      rw [List.take_of_length_le (by omega)]
    · refine .inr ⟨htake, ?_⟩
      simp only [List.length_append, List.length_take]
      omega

/-- The send times in the slots of the queue. -/
abbrev stamp (x : Posting) (k : Nat) : Nat := (x.sending.queue.ring.handle k).ts

/-- A packet that does not end with an error: its request is taken and put on the list, which is posted when
it is full. -/
theorem sendIndex_true (ha : Aimed sid ep x.sending) (h : x.sendIndex ts draw sid curr = some (true, x')) :
    ∃ y, y = x.request { x.sending.touch ts curr with endpoint := some ep } curr ∧
      ((y.sending.requestList.length = kRequestBatchSize ∧ y.flush ep draw = some x') ∨
        (y.sending.requestList.length ≠ kRequestBatchSize ∧ x' = y)) := by
  refine ⟨_, rfl, ?_⟩
  unfold sendIndex at h
  simp only at h
  split at h
  · cases h
  · rw [(ha.touch ts curr).connect] at h
    simp only at h
    split at h
    · rename_i hlen
      obtain ⟨z, hz, hx⟩ := Option.map_eq_some_iff.1 h
      cases hx
      exact .inl ⟨hlen, hz⟩
    · rename_i hlen
      cases h
      exact .inr ⟨hlen, rfl⟩

theorem request_sound (hx : Sound c q s x) (ts curr : Nat) (ep : Endpoint) :
    Sound c q s (x.request { x.sending.touch ts curr with endpoint := some ep } curr) := by
  have htouch := hx.sending.touch ts curr
  have hcore := x.sending.touch_core ts curr
  have hlist : (x.sending.touch ts curr).requestList = x.sending.requestList := by
    unfold Sending.touch
    split
    · rfl
    · rfl
  constructor
  · exact Sending.Sound.request
      ⟨htouch.core, htouch.tail, htouch.ring, htouch.posted, htouch.requests⟩
  · simp only [request, hx.allocated]
  · simp only [request, RequestCache.inUse_allocate, hx.inUse, List.length_append, List.length_singleton]
    push_cast
    omega
  · simp only [request, hcore]
    exact hx.posted
  · simp only [request, hlist, List.length_append, List.length_singleton, hx.held]
  · simp only [request]
    rw [← List.append_assoc]
    exact hx.kept.append (List.Sublist.refl _)
  · simp only [request, hcore]
    exact hx.limits

theorem request_stamp (hx : Sound c q s x) (ts curr : Nat) (ep : Endpoint) :
    (x.request { x.sending.touch ts curr with endpoint := some ep } curr).stamp =
      Function.update x.stamp (curr % q.ring.queueCapacity) ts := by
  funext k
  rw [Function.update_apply, ← hx.sending.ring.queueCapacity]
  exact Sending.touch_handle x.sending ts curr k

/-- Everything a packet does to the ledger and to the depths. -/
theorem sendIndex_exact (hx : Sound c q s x) (ha : Aimed sid ep x.sending)
    (hfew : x.sending.requestList.length < kRequestBatchSize) (h : x.sendIndex ts draw sid curr = some (true, x')) :
    Sound c q s x' ∧ Aimed sid ep x'.sending ∧
      x'.stamp = Function.update x.stamp (curr % q.ring.queueCapacity) ts ∧
      x'.ledger.stamped = x.ledger.stamped ++ [curr] ∧
      ((x'.sending.requestList.length = x.sending.requestList.length + 1 ∧
          x'.sending.requestList.length < kRequestBatchSize ∧ x'.sending.posts = x.sending.posts ∧ x'.depth = x.depth ∧
          x'.ledger.held = x.ledger.held ++ [curr] ∧ x'.ledger.posted = x.ledger.posted) ∨
        (x.sending.requestList.length + 1 = kRequestBatchSize ∧ x'.sending.requestList = [] ∧
          x'.sending.posts = x.sending.posts + 1 ∧
          ((EndpointStore.takeAll c.endpointStore.maxWrDepth c.endpointStore.numQp x.depth
              [(draw x.sending.posts, kRequestBatchSize)] = some x'.depth ∧
            x'.ledger.posted = x.ledger.posted ++ (x.ledger.held ++ [curr])) ∨
          (EndpointStore.takeAll c.endpointStore.maxWrDepth c.endpointStore.numQp x.depth
              [(draw x.sending.posts, kRequestBatchSize)] = none ∧
            x'.ledger.posted.length < x.ledger.posted.length + (x.ledger.held.length + 1))))) := by
  obtain ⟨y, hy, hcases⟩ := sendIndex_true ha h
  have hsound := request_sound hx ts curr ep
  have hstamp := request_stamp hx ts curr ep
  have htouch : (x.sending.touch ts curr).requestList = x.sending.requestList ∧
      (x.sending.touch ts curr).posts = x.sending.posts := by
    unfold Sending.touch
    split
    · exact ⟨rfl, rfl⟩
    · exact ⟨rfl, rfl⟩
  have haimed : Aimed sid ep y.sending := by
    have hat := ha.touch ts curr
    rw [hy]
    exact ⟨hat.connected, hat.known, .inr rfl⟩
  have hlist : y.sending.requestList.length = x.sending.requestList.length + 1 := by
    rw [hy]
    simp only [request, htouch.1, List.length_append, List.length_singleton]
  have hposts : y.sending.posts = x.sending.posts := by rw [hy]; exact htouch.2
  have hdepth : y.depth = x.depth := by
    rw [hy]
    simp only [request, depth, x.sending.touch_core]
  rw [← hy] at hsound hstamp
  have hledger : y.ledger = ⟨x.ledger.stamped ++ [curr], x.ledger.allocated ++ [curr], x.ledger.held ++ [curr],
      x.ledger.posted⟩ := by rw [hy]; rfl
  obtain ⟨hfull, hf⟩ | ⟨hfull, rfl⟩ := hcases
  · have hne : y.sending.requestList ≠ [] := by
      intro hnil
      rw [hnil] at hlist
      simp at hlist
    obtain ⟨h1, h2, h3, h4, h5, h6, h7⟩ := flush_exact hsound haimed hne hf
    rw [hposts, hdepth, hfull, hledger] at h7
    refine ⟨h1, h2, ?_, ?_, .inr ⟨hlist.symm.trans hfull, h3, h4.trans (by rw [hposts]), ?_⟩⟩
    · rw [← hstamp]
      funext k
      simp only [stamp, h5]
    · rw [h6, hledger]
    · simpa using h7
  · refine ⟨hsound, haimed, hstamp, by rw [hledger], .inl ⟨hlist, by omega, hposts, hdepth, ?_, ?_⟩⟩
    · rw [hledger]
    · rw [hledger]

/-- After the loop the rest of the list is posted. -/
theorem finish_exact (hx : Sound c q s x) (ha : Aimed sid ep x.sending)
    (hfew : x.sending.requestList.length < kRequestBatchSize) (h : x.finish draw = some x') :
    Sound c q s x' ∧ x'.ledger.held = [] ∧ x'.ledger.stamped = x.ledger.stamped ∧
      ((EndpointStore.takeAll c.endpointStore.maxWrDepth c.endpointStore.numQp x.depth
          (numbered draw x.sending.posts (batches x.sending.requestList.length)) = some x'.depth ∧
        x'.ledger.posted = x.ledger.posted ++ x.ledger.held) ∨
      (EndpointStore.takeAll c.endpointStore.maxWrDepth c.endpointStore.numQp x.depth
          (numbered draw x.sending.posts (batches x.sending.requestList.length)) = none ∧
        x'.ledger.posted.length < x.ledger.posted.length + x.ledger.held.length)) := by
  unfold finish at h
  split at h
  · rename_i hnil
    cases h
    have hheld : x.ledger.held = [] := List.length_eq_zero_iff.1 (by rw [hx.held, hnil]; rfl)
    refine ⟨hx, hheld, rfl, .inl ⟨?_, by rw [hheld, List.append_nil]⟩⟩
    rw [hnil, List.length_nil, batches_zero]
    rfl
  · cases h
  · rename_i r rs ep' hcons hep
    obtain rfl : ep' = ep := by
      rcases ha.endpoint with he | he
      · rw [hep] at he; cases he
      · rw [hep] at he; exact Option.some.inj he
    obtain ⟨h1, -, h3, -, -, h6, h7⟩ := flush_exact hx ha (by rw [hcons]; simp) h
    refine ⟨h1, List.length_eq_zero_iff.1 (by rw [h1.held, h3]; rfl), h6, ?_⟩
    rw [batches_small (by rw [hcons]; simp) hfew, numbered_cons, numbered_nil]
    exact h7

/-- The loop keeps the books: indices are stamped in order, and what is lost stays lost. -/
theorem sendIndices_sound : ∀ {is : List Nat} {x x' : Posting}, Sound c q s x → Aimed sid ep x.sending →
    x.sending.requestList.length < kRequestBatchSize → x.sendIndices ts draw sid is = some (true, x') →
    Sound c q s x' ∧ Aimed sid ep x'.sending ∧ x'.sending.requestList.length < kRequestBatchSize ∧
      (∃ d, d.Sublist is ∧ x'.ledger.stamped = x.ledger.stamped ++ d) ∧
      (x.ledger.posted.length + x.ledger.held.length < x.ledger.stamped.length →
        x'.ledger.posted.length + x'.ledger.held.length < x'.ledger.stamped.length)
  | [], x, x', hx, ha, hfew, h => by
    cases h
    exact ⟨hx, ha, hfew, ⟨[], List.Sublist.refl _, by simp⟩, fun hlost => hlost⟩
  | i :: is, x, x', hx, ha, hfew, h => by
    unfold sendIndices at h
    split at h
    · cases h
      exact ⟨hx, ha, hfew, ⟨[], List.nil_sublist _, by simp⟩, fun hlost => hlost⟩
    · split at h
      · cases h
      · cases h
      · rename_i y hy
        obtain ⟨h1, h2, -, h4, h5⟩ := sendIndex_exact hx ha hfew hy
        have hstamped : y.ledger.stamped.length = x.ledger.stamped.length + 1 := by rw [h4]; simp
        have hheld := h1.held
        have hstep : y.sending.requestList.length < kRequestBatchSize ∧
            y.ledger.posted.length + y.ledger.held.length ≤ x.ledger.posted.length + x.ledger.held.length + 1 := by
          obtain ⟨-, hlt, -, -, hh, hp⟩ | ⟨-, hnil, -, ⟨-, hp⟩ | ⟨-, hp⟩⟩ := h5
          · refine ⟨hlt, ?_⟩
            rw [hh, hp, List.length_append, List.length_singleton]
            omega
          · rw [hnil, List.length_nil] at hheld
            refine ⟨by rw [hnil]; decide, ?_⟩
            rw [hp, hheld]
            simp only [List.length_append, List.length_singleton]
            omega
          · rw [hnil, List.length_nil] at hheld
            exact ⟨by rw [hnil]; decide, by omega⟩
        obtain ⟨k1, k2, k3, ⟨d, hd, hst⟩, k5⟩ := sendIndices_sound h1 h2 hstep.1 h
        refine ⟨k1, k2, k3, ⟨i :: d, hd.cons_cons i, by rw [hst, h4]; simp⟩, fun hlost => k5 ?_⟩
        have := hstep.2
        omega

/-- What is lost is lost to the end of the session. -/
theorem lost_to_end {is : List Nat} {y : Posting} (hx : Sound c q s x) (ha : Aimed sid ep x.sending)
    (hfew : x.sending.requestList.length < kRequestBatchSize)
    (hlost : x.ledger.posted.length + x.ledger.held.length < x.ledger.stamped.length)
    (h : x.sendIndices ts draw sid is = some (true, y)) (hf : y.finish draw = some x') :
    x'.ledger.posted.length < x'.ledger.stamped.length := by
  obtain ⟨k1, k2, k3, -, hkept⟩ := sendIndices_sound hx ha hfew h
  obtain ⟨-, -, hst, hend⟩ := finish_exact k1 k2 k3 hf
  have hylost := hkept hlost
  rw [hst]
  obtain ⟨-, hpy⟩ | ⟨-, hpy⟩ := hend
  · rw [hpy, List.length_append]
    exact hylost
  · omega

/-- The posts are all taken whole and nothing is lost, or one is not and something is. -/
def Settles (c : Core) (depth : Nat → Int) (ps : List (Post × Nat)) (x : Posting) : Prop :=
  (EndpointStore.takeAll c.endpointStore.maxWrDepth c.endpointStore.numQp depth ps = some x.depth ∧
    x.ledger.posted = x.ledger.stamped) ∨
  (EndpointStore.takeAll c.endpointStore.maxWrDepth c.endpointStore.numQp depth ps = none ∧
    x.ledger.posted.length < x.ledger.stamped.length)

theorem finish_settles (hx : Sound c q s x) (ha : Aimed sid ep x.sending)
    (hfew : x.sending.requestList.length < kRequestBatchSize) (hkept : x.Kept) (h : x.finish draw = some x') :
    Settles c x.depth (numbered draw x.sending.posts (batches x.sending.requestList.length)) x' := by
  obtain ⟨-, -, hst, hcase⟩ := finish_exact hx ha hfew h
  unfold Settles
  rw [hst, ← hkept, List.length_append]
  exact hcase

/-- The loop over the packets of a session, from a state in which nothing is lost: nothing is lost at the
end exactly when all the posts that are due are taken whole. -/
theorem loop_settles : ∀ {is : List Nat} {x y x' : Posting}, Sound c q s x → Aimed sid ep x.sending →
    x.sending.requestList.length < kRequestBatchSize → x.Kept → x.sendIndices ts draw sid is = some (true, y) →
    y.finish draw = some x' →
    Settles c x.depth (numbered draw x.sending.posts (batches (x.sending.requestList.length +
      (dueIndices ts c.recvRto q.ring.queueCapacity x.stamp is).length))) x'
  | [], x, y, x', hx, ha, hfew, hkept, h, hf => by
    cases h
    exact finish_settles hx ha hfew hkept hf
  | i :: is, x, y, x', hx, ha, hfew, hkept, h, hf => by
    have hrto : x.sending.core.recvRto = c.recvRto := by rw [hx.sending.core]
    have hcap := hx.sending.ring.queueCapacity
    unfold sendIndices at h
    unfold dueIndices
    unfold SendRing.getMutableEntry at h
    rw [hrto, hcap] at h
    split at h
    · rename_i hyoung
      cases h
      rw [if_pos hyoung]
      exact finish_settles hx ha hfew hkept hf
    · rename_i hold
      rw [if_neg hold]
      split at h
      · cases h
      · cases h
      · rename_i z hz
        obtain ⟨h1, h2, h3, h4, h5⟩ := sendIndex_exact hx ha hfew hz
        have hheld := h1.held
        rw [← h3, List.length_cons, Nat.add_comm _ 1, ← Nat.add_assoc]
        obtain ⟨hlen, hlt, hposts, hdepth, hh, hp⟩ | ⟨hfull, hnil, hposts, hcase⟩ := h5
        · -- the list is not full yet
          have hkept' : z.Kept := by
            unfold Kept at hkept ⊢
            rw [hh, hp, h4, ← List.append_assoc, hkept]
          have ih := loop_settles h1 h2 hlt hkept' h hf
          rw [hdepth, hposts, hlen] at ih
          exact ih
        · have hempty : z.sending.requestList.length < kRequestBatchSize := by rw [hnil]; decide
          rw [hfull, batches_add, numbered_cons]
          unfold Settles
          rw [← List.singleton_append, EndpointStore.takeAll_append]
          obtain ⟨htake, hp⟩ | ⟨htake, hp⟩ := hcase
          · have hkept' : z.Kept := by
              unfold Kept at hkept ⊢
              rw [List.length_eq_zero_iff.1 (hheld.trans (by rw [hnil]; rfl)), List.append_nil, hp, h4,
                ← List.append_assoc, hkept]
            have ih := loop_settles h1 h2 hempty hkept' h hf
            rw [hnil, List.length_nil, Nat.zero_add, hposts] at ih
            rw [htake]
            exact ih
          · rw [htake]
            rw [hnil, List.length_nil] at hheld
            have hstamped : z.ledger.stamped.length = x.ledger.stamped.length + 1 := by rw [h4]; simp
            have hbefore : x.ledger.posted.length + x.ledger.held.length = x.ledger.stamped.length := by
              rw [← hkept, List.length_append]
            exact .inr ⟨rfl, lost_to_end h1 h2 hempty (by omega) h hf⟩

end Posting

/-! ## Sessions -/

/-- What every ledger of a reachable node respects: a request for each stamped packet, and each of them
posted at most once. -/
structure Ledger.Fair (g : Ledger) : Prop where
  allocated : g.allocated = g.stamped
  nodup : g.stamped.Nodup
  posted : g.posted.Sublist g.stamped

/-- Every request that was taken is on a queue pair, and so is the request of every packet that was stamped. -/
def Ledger.AllPosted (g : Ledger) : Prop := (∀ i ∈ g.allocated, i ∈ g.posted) ∧ ∀ i ∈ g.stamped, i ∈ g.posted

theorem Ledger.Fair.allPosted_iff {g : Ledger} (h : g.Fair) : g.AllPosted ↔ g.posted = g.stamped := by
  constructor
  · intro hall
    have hle := (List.subperm_of_subset h.nodup hall.2).length_le
    exact h.posted.eq_of_length_le hle
  · intro heq
    unfold Ledger.AllPosted
    rw [h.allocated, heq]
    exact ⟨fun _ hi => hi, fun _ hi => hi⟩

namespace Node

variable {n n' : Node} {ts sid : Nat}

abbrev outstanding (n : Node) : Nat := n.core.endpointStore.outstanding.length

theorem sendSession_some {draw : Nat → Post} {b : Bool} {g : Ledger} (h : sendSession ts draw n sid = some (b, n', g)) :
    ∃ resent, Context.sendSession ts draw n.core sid = some (b, n'.core, resent) := by
  have hcore := sendSession_core ts draw n sid
  rw [h] at hcore
  obtain ⟨⟨b', c', resent⟩, hc, hx⟩ := Option.map_eq_some_iff.1 hcore.symm
  cases hx
  exact ⟨resent, hc⟩

/-- One session of `sendDataPackets`, from a state that can send. -/
theorem sendSession_settles {draw : Nat → Post} {b : Bool} {g : Ledger} (hc : Sendable n.core) (hl : Linked n.core)
    (h : sendSession ts draw n sid = some (b, n', g)) :
    b = true ∧ g.Fair ∧ n'.cache.inUse = n.cache.inUse + g.allocated.length ∧
      n'.outstanding = n.outstanding + g.posted.length ∧
      ((n.core.takes (sessionPosts n.core ts draw sid) = some n'.core.endpointStore.sendWrDepth ∧
          g.posted = g.stamped) ∨
        (n.core.takes (sessionPosts n.core ts draw sid) = none ∧ g.posted.length < g.stamped.length)) := by
  obtain ⟨resent, hctx⟩ := sendSession_some h
  unfold sendSession at h
  split at h
  · cases h
  · rename_i e he
    obtain rfl : b = true := (sendSession_resent_iff hc he hctx).1
    refine ⟨rfl, ?_⟩
    obtain ⟨name, hrev⟩ := hc.peer sid e he
    obtain ⟨ep, hep, hcon⟩ := hl _ name hrev
    unfold sessionPosts
    rw [he]
    simp only
    split at h
    · rename_i hpaced
      cases h
      rw [if_pos hpaced]
      exact ⟨⟨rfl, List.nodup_nil, List.Sublist.refl _⟩, by simp, rfl, .inl ⟨rfl, rfl⟩⟩
    · rename_i hpaced
      rw [if_neg hpaced]
      split at h
      · cases h
      · rename_i ptr hptr
        split at h
        · cases h
        · rename_i q hq
          rw [hptr, Option.bind_some, hq]
          have h0 : Posting.Sound n.core q n.cache ⟨⟨n.core, e, q, none, [], 0, []⟩, n.cache, ⟨[], [], [], []⟩⟩ :=
            ⟨⟨rfl, rfl, .refl _, ⟨[], by simp, by simp⟩, by simp⟩, rfl, by simp, by simp, rfl, List.Sublist.refl _,
              rfl, rfl⟩
          have hfew : ([] : List Request).length < kRequestBatchSize := by decide
          have ha : Posting.Aimed sid ep ⟨n.core, e, q, none, [], 0, []⟩ :=
            ⟨hcon, ⟨name, hc.named _ name hrev, hrev, hep⟩, .inl rfl⟩
          split at h
          · cases h
          · cases h
          · rename_i x hx
            obtain ⟨y, hy, hr⟩ := Option.map_eq_some_iff.1 h
            cases hr
            obtain ⟨k1, k2, k3, ⟨d, hd, hst⟩, -⟩ := Posting.sendIndices_sound h0 ha hfew hx
            obtain ⟨f1, f2, f3, -⟩ := Posting.finish_exact k1 k2 k3 hy
            have hset := Posting.loop_settles h0 ha hfew rfl hx hy
            refine ⟨⟨f1.allocated, ?_, ?_⟩, f1.inUse, f1.posted, ?_⟩
            · rw [f3, hst]
              exact hd.nodup List.nodup_range'
            · have hkept := f1.kept
              rw [f2, List.append_nil] at hkept
              exact hkept
            · unfold Posting.Settles at hset
              rw [List.length_nil, Nat.zero_add] at hset
              exact hset

theorem sessionPosts_other {c c' : Core} {k : Nat} {draw d : Nat → Post} {b : Bool} {resent : List Nat}
    (hc : Sendable c) (hs : Context.sendSession ts d c sid = some (b, c', resent)) (hk : k ≠ sid) :
    sessionPosts c' ts draw k = sessionPosts c ts draw k := by
  obtain ⟨-, hm, hrto, hother⟩ := hc.sendSession hs
  unfold sessionPosts
  rw [hm, hrto]
  cases he : c.activeSessionMap.lookup k with
  | none => rfl
  | some e =>
    have hq : e.sendQueue.bind c'.packetManager.sendQueue = e.sendQueue.bind c.packetManager.sendQueue := by
      cases hp : e.sendQueue with
      | none => rfl
      | some ptr =>
        obtain rfl := hc.ptr k e ptr he hp
        exact hother ptr hk
    simp only [hq]

theorem linked_sendSession {c c' : Core} {d : Nat → Post} {b : Bool} {resent : List Nat} (hl : Linked c)
    (hs : Context.sendSession ts d c sid = some (b, c', resent)) : Linked c' := by
  have hctrl : c'.controller = c.controller := by
    obtain rfl | ⟨e, ptr, q, q', st, ds, -, -, -, -, -, -, -, rfl⟩ := Context.sendSession_some hs
    · rfl
    · rfl
  intro id name hn
  rw [hctrl] at hn
  obtain ⟨ep, hep, hcon⟩ := hl id name hn
  exact ⟨ep, sendSession_store (EndpointStore.storeRule_connected hcon) hep hs, hcon⟩

/-- The other sessions post what they would have posted. -/
theorem dataPosts_other {c c' : Core} {draw : Nat → Nat → Post} {d : Nat → Post} {b : Bool} {resent order : List Nat}
    (hc : Sendable c) (hs : Context.sendSession ts d c sid = some (b, c', resent)) (hsid : sid ∉ order) :
    dataPosts c' ts draw order = dataPosts c ts draw order := by
  unfold dataPosts
  refine List.flatMap_congr fun k hk => sessionPosts_other hc hs ?_
  rintro rfl
  exact hsid hk

/-- A call of `sendDataPackets`, from a state that can send: the posts of all its sessions are taken whole and
nothing is lost, or one of them is not and something is. -/
theorem sendDataPackets_settles {draw : Nat → Nat → Post} : ∀ {order : List Nat} {n n' : Node} {ret : Int}
    {log : List (Nat × Ledger)}, Sendable n.core → Linked n.core → order.Nodup →
    n.sendDataPackets ts draw order = some (ret, n', log) →
    (∀ s ∈ log, s.2.Fair) ∧
      (((n.core.takes (dataPosts n.core ts draw order)).isSome = true ∧ (∀ s ∈ log, s.2.posted = s.2.stamped) ∧
          n'.cache.inUse + n.outstanding = n.cache.inUse + n'.outstanding) ∨
        (n.core.takes (dataPosts n.core ts draw order) = none ∧ ∃ s ∈ log, s.2.posted.length < s.2.stamped.length))
  | [], n, n', ret, log, _, _, _, h => by
    cases h
    exact ⟨fun s hs => (by cases hs), .inl ⟨rfl, fun s hs => (by cases hs), rfl⟩⟩
  | sid :: rest, n, n', ret, log, hc, hl, hnd, h => by
    rw [List.nodup_cons] at hnd
    have hfirst : dataPosts n.core ts draw (sid :: rest) =
        sessionPosts n.core ts (draw sid) sid ++ dataPosts n.core ts draw rest := rfl
    rw [hfirst]
    unfold sendDataPackets at h
    split at h
    · cases h
    · rename_i hs
      exact absurd (sendSession_settles hc hl hs).1 (by simp)
    · rename_i m g hs
      obtain ⟨⟨ret', n2, log'⟩, hr, hx⟩ := Option.map_eq_some_iff.1 h
      cases hx
      obtain ⟨-, hfair, huse, hout, hcase⟩ := sendSession_settles hc hl hs
      obtain ⟨resent, hctx⟩ := sendSession_some hs
      have hcm := (hc.sendSession hctx).1
      have hlimits := sendSession_store (EndpointStore.storeRule_limits _ _) ⟨rfl, rfl⟩ hctx
      obtain ⟨hfairs, hrest⟩ := sendDataPackets_settles hcm (linked_sendSession hl hctx) hnd.2 hr
      have hall : ∀ s ∈ (sid, g) :: log', s.2.Fair := by
        intro s hsmem
        rcases List.mem_cons.1 hsmem with rfl | hsmem
        · exact hfair
        · exact hfairs s hsmem
      refine ⟨hall, ?_⟩
      obtain ⟨htake, hpost⟩ | ⟨htake, hlost⟩ := hcase
      · rw [Core.takes_append htake hlimits, ← dataPosts_other hc hctx hnd.1]
        obtain ⟨h1, h2, h3⟩ | ⟨h1, s, hsmem, h2⟩ := hrest
        · refine .inl ⟨h1, fun s hsmem => ?_, ?_⟩
          · rcases List.mem_cons.1 hsmem with rfl | hsmem
            · exact hpost
            · exact h2 s hsmem
          · have hlen : g.posted.length = g.allocated.length := by rw [hpost, hfair.allocated]
            simp only at h3 ⊢
            omega
        · exact .inr ⟨h1, s, List.mem_cons_of_mem _ hsmem, h2⟩
      · rw [Core.takes_append_of_none htake]
        exact .inr ⟨rfl, (sid, g), List.mem_cons_self, hlost⟩

/-! ## Acknowledgements -/

/-- Every session leads to a connected endpoint. -/
structure Peered (c : Core) : Prop where
  linked : Linked c
  named : ∀ id name, c.controller.peerNameRevMap id = some name → name ≠ ""
  peer : ∀ sid e, c.activeSessionMap.lookup sid = some e → ∃ name, c.controller.peerNameRevMap (sid / 256) = some name

/-- The post of an ACK that is taken: a request more on either side, or none when the header cannot be
serialised. -/
theorem postAck_settles {e : SessionInfo} {q : ReceiveQueue} {p : Post} {ret : Int} {d : Nat → Int}
    (hp : Peered n.core) (he : n.core.activeSessionMap.lookup sid = some e) (htake : n.core.takes [(p, 1)] = some d)
    (h : n.postAck sid e q p = some (ret, n')) :
    n'.cache.inUse + n.outstanding = n.cache.inUse + n'.outstanding ∧
      (ret = 0 → n'.core.endpointStore.sendWrDepth = d) := by
  obtain ⟨name, hrev⟩ := hp.peer sid e he
  obtain ⟨ep, hep, hcon⟩ := hp.linked _ name hrev
  have hget : (n.core.setSession sid { e with ackHandle := ackHeader sid (ackWnd q) q e.ackHandle }).getOrCreateEndpoint
      sid = (some ep, _) :=
    Posting.getOrCreateEndpoint_of_known ⟨name, hp.named _ name hrev, hrev, hep⟩
  obtain ⟨⟨r, c'⟩, hpost, hx⟩ := Option.map_eq_some_iff.1 h
  cases hx
  unfold Core.postAck at hpost
  simp only [hget] at hpost
  cases hser : (ackHeader sid (ackWnd q) q e.ackHandle).serialize with
  | none =>
    rw [hser] at hpost
    cases hpost
    simp only [Option.isSome_none, Bool.false_eq_true, if_false]
    exact ⟨rfl, fun h0 => (by cases h0)⟩
  | some slices =>
    rw [hser] at hpost
    simp only [Bool.false_eq_true, false_and, if_false] at hpost
    split at hpost
    · cases hpost
    · rename_i ret' st hst
      obtain ⟨htake', hret, hout⟩ | ⟨hnone, -⟩ := EndpointStore.postSendRequest_exact hcon (by simp) hst
      · have hd : d = st.sendWrDepth := by
          have : n.core.takes [(p, 1)] = some st.sendWrDepth := htake'
          rw [htake] at this
          exact Option.some.inj this
        simp only [List.length_singleton, Nat.cast_one] at hret hout
        rw [if_neg (by simpa using hret)] at hpost
        cases hpost
        simp only [Option.isSome_some, if_true, RequestCache.inUse_allocate]
        refine ⟨?_, fun _ => hd.symm⟩
        have hout' : st.outstanding.length = n.outstanding + 1 := hout
        simp only [outstanding, Core.setSession] at hout' ⊢
        omega
      · have : n.core.takes [(p, 1)] = none := hnone
        rw [htake] at this
        cases this

theorem Peered.postAck {c c' : Core} {e : SessionInfo} {q : ReceiveQueue} {p : Post} {ret : Int} (hp : Peered c)
    (he : c.activeSessionMap.lookup sid = some e) (h : Core.postAck ackWnd false c sid e q p = some (ret, c')) :
    Peered c' ∧ ∀ k, k ≠ sid → c'.activeSessionMap.lookup k = c.activeSessionMap.lookup k := by
  have hlinked : c'.controller = c.controller → Linked c' := by
    intro hctrl id name hn
    rw [hctrl] at hn
    obtain ⟨ep, hep, hcon⟩ := hp.linked id name hn
    exact ⟨ep, postAck_store (EndpointStore.storeRule_connected hcon) hep h, hcon⟩
  obtain ⟨st, k, rfl, -⟩ := postAck_some h
  refine ⟨⟨hlinked rfl, hp.named, fun j x hx => ?_⟩, fun j hj => by rw [lookup_setSession, if_neg hj]⟩
  rw [lookup_setSession] at hx
  split at hx
  · rename_i hj
    rw [hj]
    exact hp.peer sid e he
  · exact hp.peer j x hx

/-- `sendAckPackets` when all its posts are taken. -/
theorem sendAckPackets_settles : ∀ {order : List (Nat × Post)} {n n' : Node} {ret : Int}, Peered n.core →
    (order.map (·.1)).Nodup → (n.core.takes (ackPosts n.core order)).isSome = true →
    n.sendAckPackets order = some (ret, n') → n'.cache.inUse + n.outstanding = n.cache.inUse + n'.outstanding
  | [], n, n', ret, _, _, _, h => by cases h; rfl
  | (sid, p) :: rest, n, n', ret, hp, hnd, htake, h => by
    rw [List.map_cons, List.nodup_cons] at hnd
    unfold sendAckPackets at h
    split at h
    · cases h
    · rename_i e he
      split at h
      · cases h
      · rename_i q hq
        split at h
        · rename_i howes
          rw [ackPosts_cons he, if_pos howes] at htake
          cases hone : n.core.takes [(p, 1)] with
          | none => rw [Core.takes_append_of_none hone] at htake; cases htake
          | some d =>
            split at h
            · cases h
            · rename_i ret' m hm
              obtain ⟨hbal, hdepth⟩ := postAck_settles hp he hone hm
              split at h
              · cases h; exact hbal
              · rename_i hret
                obtain ⟨x, hpost, hx⟩ := Option.map_eq_some_iff.1 hm
                have hcore : x.2 = m.core := by cases hx; rfl
                have hpost' : Core.postAck ackWnd false n.core sid e q p = some (x.1, m.core) := by
                  rw [hpost, ← hcore]
                obtain ⟨hpm, hother⟩ := hp.postAck he hpost'
                have hlimits := postAck_store (EndpointStore.storeRule_limits _ _) ⟨rfl, rfl⟩ hpost'
                have hrest : ackPosts m.core rest = ackPosts n.core rest := by
                  refine ackPosts_congr fun s hs => hother s.1 ?_
                  rintro rfl
                  exact hnd.1 (List.mem_map.2 ⟨s, hs, rfl⟩)
                rw [← hdepth (by simpa using hret)] at hone
                rw [Core.takes_append hone hlimits, ← hrest] at htake
                have ih := sendAckPackets_settles hpm hnd.2 htake h
                omega
        · rename_i howes
          rw [ackPosts_cons he, if_neg howes, List.nil_append] at htake
          exact sendAckPackets_settles hp hnd.2 htake h

/-! ## Polling -/

theorem pollSends_settles : ∀ {rs : List (Nat × Request)} {n : Node}, rs.Subperm n.core.endpointStore.outstanding →
    (n.pollSends rs).cache.inUse + n.outstanding = n.cache.inUse + (n.pollSends rs).outstanding
  | [], n, _ => rfl
  | r :: rs, n, h => by
    have hmem : r ∈ n.core.endpointStore.outstanding := h.subset List.mem_cons_self
    have ih := pollSends_settles (subperm_completeSend h)
    have huse : (n.completeSend r).cache.inUse = n.cache.inUse - 1 := RequestCache.inUse_deallocate _
    have hlen : (n.completeSend r).outstanding + 1 = n.outstanding := by
      unfold outstanding
      rw [outstanding_completeSend, List.length_erase_of_mem hmem]
      have := List.length_pos_of_mem hmem
      omega
    have hfold : n.pollSends (r :: rs) = (n.completeSend r).pollSends rs := rfl
    rw [hfold]
    omega

/-- The verb takes every packet that is posted again. -/
def takesWhole (ws : List Completion) : Bool := ws.all fun w => !Completion.whole w || w.accepted

theorem pollReceives_settles : ∀ {ws : List Completion} {n n' : Node}, n.Tallied →
    (ws.map (·.wr)).Subperm n.receives.outstanding → takesWhole ws = true → n.pollReceives ts ws = some n' →
    n'.cache.inUse + n.receives.outstanding.length = n.cache.inUse + n'.receives.outstanding.length ∧
      n'.outstanding = n.outstanding
  | [], n, n', _, _, _, h => by cases h; exact ⟨rfl, rfl⟩
  | w :: ws, n, n', ht, hsub, hacc, h => by
    obtain ⟨m, hm, hrest⟩ := Option.bind_eq_some_iff.1 h
    obtain ⟨hmt, hsub', hshort, hwhole⟩ := completeReceive_first ht hsub hm
    unfold takesWhole at hacc
    rw [List.all_cons, Bool.and_eq_true] at hacc
    obtain ⟨ih, ihout⟩ := pollReceives_settles hmt hsub' hacc.2 hrest
    have hone : m.cache.inUse + n.receives.outstanding.length = n.cache.inUse + m.receives.outstanding.length := by
      obtain ⟨hw, -, hc⟩ | ⟨hw, hc, -⟩ := completeReceive_cases hm
      · have hlen := (hshort hw).length_eq
        simp only [Receives.packets, List.length_map, List.length_cons] at hlen
        rw [hc, RequestCache.inUse_deallocate]
        omega
      · have hlen := (hwhole hw (by simpa [hw] using hacc.1)).length_eq
        simp only [Receives.packets, List.length_map] at hlen
        rw [hc, RequestCache.inUse_deallocate, RequestCache.inUse_allocate]
        omega
    refine ⟨by omega, ihout.trans ?_⟩
    unfold outstanding
    rw [step_endpointStore (completeReceive_core hm) rfl]

/-! ## Runs -/

/-- Every post of the event is taken whole. -/
def takesAll (n : Node) : Event → Bool
  | .sendAcks order => (n.core.takes (ackPosts n.core order)).isSome
  | .sendData ts order draw => (n.core.takes (dataPosts n.core ts draw order)).isSome
  | .pollReceives _ ws => takesWhole ws
  | _ => true

/-- The requests in use are those outstanding on queue pairs. -/
def Balanced (n : Node) : Prop := n.cache.inUse = n.outstanding + n.receives.outstanding.length

theorem Balanced.step {e : Event} (h : n.Balanced) (ht : n.Tallied) (hc : Sendable n.core) (hl : Linked n.core)
    (hok : ok n e) (hall : takesAll n e = true) (hs : Node.step n e = some n') : n'.Balanced := by
  unfold Balanced at h ⊢
  cases e with
  | call f =>
    obtain ⟨core, hf, rfl⟩ := Option.map_eq_some_iff.1 hs
    have hout : core.endpointStore.outstanding = n.core.endpointStore.outstanding := by
      cases f with
      | setupConnection p g Q ext created =>
        cases hf
        obtain ⟨st, rfl, he | ⟨-, he⟩⟩ := setupConnection_cases n.core p g Q ext created
        · rw [he]; exact EndpointStore.setupConnection_outstanding _ _ _ _
        · rw [he]; exact EndpointStore.setupConnection_outstanding _ _ _ _
      | send => rw [step_endpointStore hf rfl]
      | receive => rw [step_endpointStore hf rfl]
      | freeTask => rw [step_endpointStore hf rfl]
      | _ => cases hok
    unfold outstanding at h ⊢
    simp only [hout]
    exact h
  | sendAcks order =>
    obtain ⟨⟨ret, m⟩, hm, rfl⟩ := Option.map_eq_some_iff.1 hs
    have hnd : (order.map (·.1)).Nodup := hok.nodup_iff.2 n.core.activeSessionMap.nodupKeys
    have hbal := sendAckPackets_settles ⟨hl, hc.named, hc.peer⟩ hnd hall hm
    rw [sendAckPackets_receives hm]
    simp only at hbal ⊢
    omega
  | sendData ts order draw =>
    obtain ⟨⟨ret, m, log⟩, hm, rfl⟩ := Option.map_eq_some_iff.1 hs
    have hnd : order.Nodup := hok.nodup_iff.2 n.core.activeSessionMap.nodupKeys
    obtain ⟨-, -, hbal⟩ | ⟨hnone, -⟩ := (sendDataPackets_settles hc hl hnd hm).2
    · rw [sendDataPackets_receives hm]
      simp only at hbal ⊢
      omega
    · simp only [takesAll, hnone] at hall
      cases hall
  | pollReceives ts ws =>
    obtain ⟨hbal, hout⟩ := pollReceives_settles ht hok.2.1 hall hs
    omega
  | pollSends rs =>
    cases hs
    have hbal := pollSends_settles hok.2
    rw [pollSends_receives]
    omega

theorem balanced_of_run {cfg : Config} {n0 : Node} {es : List Event}
    (hmax : (kNumReceiveHandles : Int) ≤ cfg.maxWrPerQp) (h0 : construct cfg (fun _ => true) = some n0)
    (hrun : Runs.Run step (fun m e => ok m e ∧ takesAll m e = true) n0 es n) : n.Balanced := by
  obtain ⟨ht0, hout0, huse0, hall0⟩ := construct_tallied h0
  obtain ⟨fs, hreach⟩ := core_reachable ⟨n0, h0, .nil⟩
  suffices h : n.Tallied ∧ Sendable n.core ∧ Linked n.core ∧ n.Balanced from h.2.2.2
  refine hrun.invariant (P := fun m => m.Tallied ∧ Sendable m.core ∧ Linked m.core ∧ m.Balanced) ?_ ?_
  · refine ⟨ht0, sendable_of_reachable hreach, linked_of_reachable hreach, ?_⟩
    unfold Balanced outstanding
    rw [huse0, hout0, hall0 (fun _ => rfl) hmax]
    rfl
  · rintro m e m' ⟨ht, hc, hl, hb⟩ ⟨hok, hall⟩ hs
    obtain ⟨ds, hds⟩ := step_core hok hs
    refine ⟨ht.step hok hs, ?_, ?_, hb.step ht hc hl hok hall hs⟩
    · exact hds.invariant hc fun x f x' hx _ hf => hx.step hf
    · exact hds.invariant hl fun x f x' hx _ hf => Context.Linked.step hx hf

/-- In every reachable state, a call of `sendDataPackets` gets every request it takes onto a queue pair, and
with it every packet it stamps, if and only if the posts it is going to make are all taken whole. In a run in
which all posts are, the requests made and not deleted are those in the cache and those on queue pairs. -/
theorem requests_accounted (cfg : Config) :
    (∀ accepted es n, Reachable cfg accepted es n → ∀ ts order draw ret n' log,
      order.Perm n.core.activeSessionMap.keys → n.sendDataPackets ts draw order = some (ret, n', log) →
      ((∀ s ∈ log, s.2.AllPosted) ↔ (n.core.takes (dataPosts n.core ts draw order)).isSome = true)) ∧
    ((kNumReceiveHandles : Int) ≤ cfg.maxWrPerQp → ∀ n0 es n, construct cfg (fun _ => true) = some n0 →
      Runs.Run step (fun m e => ok m e ∧ takesAll m e = true) n0 es n →
      (n.cache.allocated : Int) - n.cache.freed =
        n.cache.cached + (n.outstanding + n.receives.outstanding.length)) := by
  constructor
  · intro accepted es n hreach ts order draw ret n' log hperm hs
    obtain ⟨fs, hctx⟩ := core_reachable hreach
    have hnd : order.Nodup := hperm.nodup_iff.2 n.core.activeSessionMap.nodupKeys
    obtain ⟨hfair, hcase⟩ :=
      sendDataPackets_settles (sendable_of_reachable hctx) (linked_of_reachable hctx) hnd hs
    constructor
    · intro hall
      obtain ⟨htake, -⟩ | ⟨-, s, hmem, hlost⟩ := hcase
      · exact htake
      · rw [(hfair s hmem).allPosted_iff.1 (hall s hmem)] at hlost
        exact absurd hlost (lt_irrefl _)
    · intro htake s hmem
      obtain ⟨-, hposted, -⟩ | ⟨hnone, -⟩ := hcase
      · exact (hfair s hmem).allPosted_iff.2 (hposted s hmem)
      · rw [hnone] at htake
        cases htake
  · intro hmax n0 es n h0 hrun
    have hbal := balanced_of_run hmax h0 hrun
    unfold Balanced RequestCache.inUse at hbal
    omega

/-- One request for each queue pair. -/
def narrowConfig : Config := { smallConfig 512 with maxWrPerQp := 1 }

/-- Every post draws queue pair 0, and the verb takes what it is given. -/
def draws : Nat → Nat → Post := fun _ _ => ⟨0, 4⟩

/-- The call took a request for packet 0 of session 0 and posted none. -/
def losesRequest (n : Node) (r : Int × Node × List (Nat × Ledger)) : Bool :=
  decide (r.1 = 0 ∧ r.2.2 = [(0, ⟨[0], [0], [], []⟩)] ∧ r.2.1.cache.inUse = n.cache.inUse + 1 ∧
    r.2.1.outstanding = n.outstanding)

/-- A packet is sent, and sent again before the completion is polled: the second request finds the queue pair
full, and is gone. -/
theorem full_queue_loses_request : ∃ n0 n n', construct narrowConfig (fun _ => true) = some n0 ∧
    Runs.Run step ok n0 [.call (.setupConnection "a" 7 [1] [1] true), .call (.send "a" [⟨100, 2⟩]),
      .sendData 8196 [0] draws] n ∧
    n.sendDataPackets 16392 draws [0] = some (0, n', [(0, ⟨[0], [0], [], []⟩)]) ∧
    n'.cache.inUse = n.cache.inUse + 1 ∧ n'.outstanding = n.outstanding := by
  obtain ⟨n0, n, h0, hrun, ht⟩ := Runs.exists_run_of_start step ok (construct narrowConfig fun _ => true)
    [.call (.setupConnection "a" 7 [1] [1] true), .call (.send "a" [⟨100, 2⟩]), .sendData 8196 [0] draws]
    (fun n => (n.sendDataPackets 16392 draws [0]).any (losesRequest n)) (by decide +kernel)
  obtain ⟨⟨ret, n', log⟩, hs, hr⟩ := (Option.any_eq_true _ _).1 ht
  obtain ⟨hret, hlog, huse, hout⟩ := of_decide_eq_true hr
  simp only at hret hlog
  subst hret hlog
  exact ⟨n0, n, n', h0, hrun, hs, huse, hout⟩

/-- A packet is sent on a queue pair with room: its request is posted, and the counters agree. -/
theorem sent_packet_accounted : ∃ n0 n n' log, construct (defaultConfig 512) (fun _ => true) = some n0 ∧
    Runs.Run step (fun m e => ok m e ∧ takesAll m e = true) n0
      [.call (.setupConnection "a" 7 [1] [1] true), .call (.send "a" [⟨100, 2⟩])] n ∧
    n.sendDataPackets 8196 draws [0] = some (0, n', log) ∧ log.length = 1 ∧ (∀ s ∈ log, s.2.AllPosted) ∧
    (n.cache.allocated : Int) - n.cache.freed = n.cache.cached + (n.outstanding + n.receives.outstanding.length) := by
  obtain ⟨n0, n, h0, hrun, ht⟩ := Runs.exists_run_of_start step (fun m e => ok m e ∧ takesAll m e = true)
    (construct (defaultConfig 512) fun _ => true)
    [.call (.setupConnection "a" 7 [1] [1] true), .call (.send "a" [⟨100, 2⟩])]
    (fun n => (n.sendDataPackets 8196 draws [0]).any (fun r : Int × Node × List (Nat × Ledger) =>
        decide (r.1 = 0 ∧ r.2.2.length = 1)) &&
      (decide ([0].Perm n.core.activeSessionMap.keys) &&
        (n.core.takes (dataPosts n.core 8196 draws [0])).isSome)) (by decide +kernel)
  obtain ⟨hs, hrest⟩ := Bool.and_eq_true_iff.1 ht
  obtain ⟨hperm, htake⟩ := Bool.and_eq_true_iff.1 hrest
  obtain ⟨⟨ret, n', log⟩, hs, hr⟩ := (Option.any_eq_true _ _).1 hs
  obtain ⟨hret, hlen⟩ := of_decide_eq_true hr
  simp only at hret hlen
  subst hret
  have hreach : Reachable (defaultConfig 512) (fun _ => true) _ n := ⟨n0, h0, hrun.weaken fun _ _ h => h.1⟩
  have h := requests_accounted (defaultConfig 512)
  exact ⟨n0, n, n', log, h0, hrun, hs, hlen,
    (h.1 _ _ n hreach 8196 [0] draws 0 n' log (of_decide_eq_true hperm) hs).2 htake,
    h.2 (by decide) n0 _ n h0 hrun⟩

end Node

end RapidTransfer
