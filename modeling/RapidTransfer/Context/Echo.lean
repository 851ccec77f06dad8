/-
The times that packets carry. A DATA packet that a queue pair takes carries the time of the call that sent it, cut to
48 bits (`sendDataPackets_dated`): the entry of its slot is stamped before the post, and whatever the call stamps later
gets the same time. An ACK carries `last_packet_ts_` of the receive queue of its session (`sendAcks_echoes`). Of a
receive queue only a DATA packet that it accepts changes this member (`markCompleted_lastPacketTs`).

None of these packets is compacted, in which case they would carry no time at all: a handle that owns a packet buffer
was cleared when it got it.
-/
import RapidTransfer.Context.Node
import RapidTransfer.Context.Ack
import RapidTransfer.Context.Retransmit

namespace RapidTransfer

open RapidTransfer.Core RapidTransfer.Context

/-! ## Stamps of one call -/

/-- Entries of the ring may have got the time `ts`; nothing else about them has changed. -/
structure SendRing.StampedAt (ts : Nat) (r r' : SendRing) : Prop where
  queueCapacity : r'.queueCapacity = r.queueCapacity
  handle : ∀ k, r'.handle k = r.handle k ∨ r'.handle k = { r.handle k with ts := ts }

/-- The entry of an index was stamped with `ts`, and it can be sent. -/
def SendRing.Dated (ts : Nat) (r : SendRing) (index : Nat) : Prop :=
  (r.getMutableEntry index).ts = ts ∧ (r.getMutableEntry index).packetBuf.isSome = true

theorem SendRing.getMutableEntry_setTs (r : SendRing) (index ts : Nat) :
    (r.setTs index ts).getMutableEntry index = { r.getMutableEntry index with ts := ts } :=
  Ring.set_same _ _ _

namespace SendRing.StampedAt

variable {ts : Nat} {r r' r'' : SendRing}

theorem refl (ts : Nat) (r : SendRing) : StampedAt ts r r := ⟨rfl, fun _ => .inl rfl⟩

theorem trans (h : StampedAt ts r r') (h' : StampedAt ts r' r'') : StampedAt ts r r'' := by
  refine ⟨h'.queueCapacity.trans h.queueCapacity, fun k => ?_⟩
  rcases h.handle k with hk | hk <;> rcases h'.handle k with hk' | hk'
  · exact .inl (hk'.trans hk)
  · exact .inr (by rw [hk', hk])
  · exact .inr (by rw [hk', hk])
  · exact .inr (by rw [hk', hk])

theorem setTs (ts : Nat) (r : SendRing) (index : Nat) : StampedAt ts r (r.setTs index ts) := by
  refine ⟨rfl, fun k => ?_⟩
  by_cases hk : k = index % r.queueCapacity
  · subst hk
    exact .inr (Ring.set_same _ _ _)
  · exact .inl (Ring.set_of_ne _ _ hk)

theorem dated (h : StampedAt ts r r') {index : Nat} (hd : r.Dated ts index) : r'.Dated ts index := by
  obtain ⟨hts, hbuf⟩ := hd
  unfold Dated getMutableEntry at *
  rw [h.queueCapacity]
  rcases h.handle (index % r.queueCapacity) with hk | hk
  · rw [hk]
    exact ⟨hts, hbuf⟩
  · rw [hk]
    exact ⟨rfl, hbuf⟩

end SendRing.StampedAt

namespace Context

theorem Sending.touch_stampedAt (l : Sending) (ts curr : Nat) :
    l.queue.ring.StampedAt ts (l.touch ts curr).queue.ring := by
  unfold Sending.touch
  split
  · -- a retransmission sets the window before the time
    exact ⟨rfl, (SendRing.StampedAt.setTs ts (l.retransmit curr).queue.ring curr).handle⟩
  · exact .setTs ts _ curr

theorem Sending.touch_ts (l : Sending) (ts curr : Nat) : ((l.touch ts curr).queue.ring.getMutableEntry curr).ts = ts :=
  congrArg (·.ts) (SendRing.getMutableEntry_setTs _ curr ts)

end Context

/-! ## The packets of one session -/

namespace Posting

variable {ts sid : Nat} {draw : Nat → Post} {r : SendRing} {x x' : Posting} {b : Bool}

/-- The loop has stamped entries of the ring `r` only, and the packets it has posted or holds for the next post are
stamped and can be sent. -/
structure Dated (ts : Nat) (r : SendRing) (x : Posting) : Prop where
  ring : r.StampedAt ts x.sending.queue.ring
  packets : ∀ i ∈ x.ledger.posted ++ x.ledger.held, x.sending.queue.ring.Dated ts i

/-- The queue stays, and so do the packets but for some that are stamped. -/
theorem Dated.of_queue (h : Dated ts r x) (hq : x'.sending.queue = x.sending.queue)
    (hnew : ∀ i ∈ x'.ledger.posted ++ x'.ledger.held,
      i ∈ x.ledger.posted ++ x.ledger.held ∨ x.sending.queue.ring.Dated ts i) : Dated ts r x' := by
  constructor
  · rw [hq]
    exact h.ring
  · intro i hi
    rw [hq]
    rcases hnew i hi with hold | hdated
    · exact h.packets i hold
    · exact hdated

theorem Dated.touch (h : Dated ts r x) (curr : Nat) :
    Dated ts r { x with sending := x.sending.touch ts curr } where
  ring := h.ring.trans (Sending.touch_stampedAt x.sending ts curr)
  packets i hi := (Sending.touch_stampedAt x.sending ts curr).dated (h.packets i hi)

theorem Dated.flush {ep : Endpoint} (h : Dated ts r x) (hf : x.flush ep draw = some x') : Dated ts r x' := by
  obtain ⟨l, hl, rfl⟩ := Option.map_eq_some_iff.1 hf
  refine h.of_queue (Sending.flush_resent hl).2 fun i hi => .inl ?_
  -- what was held goes to the posted packets as far as the queue pair took it
  rcases List.mem_append.1 hi with hposted | hheld
  · rcases List.mem_append.1 hposted with hp | ht
    · exact List.mem_append_left _ hp
    · exact List.mem_append_right _ (List.mem_of_mem_take ht)
  · cases hheld

theorem Dated.sendIndex {curr : Nat} (h : Dated ts r x) (hs : x.sendIndex ts draw sid curr = some (b, x')) :
    Dated ts r x' := by
  have htouch := h.touch curr
  unfold Posting.sendIndex at hs
  dsimp only at hs
  split at hs
  · cases hs
    exact htouch.of_queue rfl fun i hi => .inl hi
  · rename_i slices hser
    have hnew : (x.sending.touch ts curr).queue.ring.Dated ts curr :=
      ⟨x.sending.touch_ts ts curr, PacketHandle.packetBuf_of_serialize hser⟩
    have hq := ((x.sending.touch ts curr).connect_resent sid).2
    split at hs
    · rename_i l hl
      rw [hl] at hq
      cases hs
      exact htouch.of_queue hq fun i hi => .inl hi
    · rename_i ep l hl
      rw [hl] at hq
      have hheld : Dated ts r
          { x with
            sending := { l with requestList := l.requestList ++ [⟨none⟩] }
            cache := x.cache.allocate
            ledger := ⟨x.ledger.stamped ++ [curr], x.ledger.allocated ++ [curr], x.ledger.held ++ [curr],
              x.ledger.posted⟩ } := by
        refine htouch.of_queue hq fun i hi => ?_
        simp only [← List.append_assoc] at hi
        rcases List.mem_append.1 hi with hi | hi
        · exact .inl hi
        · rw [List.mem_singleton.1 hi]
          exact .inr hnew
      split at hs
      · obtain ⟨x1, hf, he⟩ := Option.map_eq_some_iff.1 hs
        cases he
        exact hheld.flush hf
      · cases hs
        exact hheld

theorem Dated.sendIndices : ∀ {is : List Nat} {x x' : Posting} {b : Bool}, Dated ts r x →
    x.sendIndices ts draw sid is = some (b, x') → Dated ts r x'
  | [], x, x', b, h, hs => by
    cases hs
    exact h
  | i :: is, x, x', b, h, hs => by
    unfold Posting.sendIndices at hs
    split at hs
    · cases hs
      exact h
    · split at hs
      · cases hs
      · rename_i x1 h1
        cases hs
        exact h.sendIndex h1
      · rename_i x1 h1
        exact (h.sendIndex h1).sendIndices hs

theorem sendIndices_some {is : List Nat} (h : x.sendIndices ts draw sid is = some (b, x')) :
    Context.sendIndices ts draw sid is x.sending = some (b, x'.sending) := by
  rw [← sendIndices_sending, h]
  rfl

theorem finish_some (h : x.finish draw = some x') : Context.finish draw x.sending = some x'.sending := by
  rw [← finish_sending, h]
  rfl

theorem Dated.finish (h : Dated ts r x) (hf : x.finish draw = some x') : Dated ts r x' := by
  unfold Posting.finish at hf
  split at hf
  · cases hf
    exact h
  · cases hf
  · exact h.flush hf

end Posting

namespace Node

variable {n n' : Node} {ts sid : Nat}

/-- Every send queue was only stamped, the session map is as it was. -/
structure Stamps (ts : Nat) (n n' : Node) : Prop where
  sessions : n'.core.activeSessionMap = n.core.activeSessionMap
  queues : ∀ ptr q, n.core.packetManager.sendQueue ptr = some q →
    ∃ q', n'.core.packetManager.sendQueue ptr = some q' ∧ q.ring.StampedAt ts q'.ring

theorem Stamps.refl (ts : Nat) (n : Node) : Stamps ts n n := ⟨rfl, fun _ q hq => ⟨q, hq, .refl ts _⟩⟩

theorem Stamps.trans {n'' : Node} (h : Stamps ts n n') (h' : Stamps ts n' n'') : Stamps ts n n'' := by
  refine ⟨h'.sessions.trans h.sessions, fun ptr q hq => ?_⟩
  obtain ⟨q', hq', hs⟩ := h.queues ptr q hq
  obtain ⟨q'', hq'', hs'⟩ := h'.queues ptr q' hq'
  exact ⟨q'', hq'', hs.trans hs'⟩

/-- The send queue of a session that exists. -/
def sendQueueOf (c : Core) (sid : Nat) : Option SendQueue :=
  ((c.activeSessionMap.lookup sid).bind (·.sendQueue)).bind c.packetManager.sendQueue

/-- The packets a session posted are stamped in its queue. -/
def PostsDated (ts : Nat) (n : Node) (sid : Nat) (g : Ledger) : Prop :=
  g.posted = [] ∨ ∃ q, sendQueueOf n.core sid = some q ∧ ∀ i ∈ g.posted, q.ring.Dated ts i

theorem PostsDated.stamps {g : Ledger} (h : PostsDated ts n sid g) (hs : Stamps ts n n') : PostsDated ts n' sid g := by
  rcases h with h | ⟨q, hq, hd⟩
  · exact .inl h
  · obtain ⟨ptr, hptr, hq⟩ := Option.bind_eq_some_iff.1 hq
    obtain ⟨q', hq', hst⟩ := hs.queues ptr q hq
    refine .inr ⟨q', ?_, fun i hi => hst.dated (hd i hi)⟩
    unfold sendQueueOf
    rw [hs.sessions, hptr]
    exact hq'

/-- The queue of the loop goes back to where it came from. -/
theorem store_dated {info : SessionInfo} {ptr : Nat} {q : SendQueue} {x : Posting}
    (hinfo : n.core.activeSessionMap.lookup sid = some info) (hptr : info.sendQueue = some ptr)
    (hq : n.core.packetManager.sendQueue ptr = some q) (hd : Posting.Dated ts q.ring x)
    (hsound : Sending.Sound n.core q x.sending) :
    Stamps ts n (x.store n ptr) ∧ PostsDated ts (x.store n ptr) sid x.ledger := by
  have hmgr : x.sending.core.packetManager = n.core.packetManager := by rw [hsound.core]
  have hmap : x.sending.core.activeSessionMap = n.core.activeSessionMap := by rw [hsound.core]
  have hqueue : (x.store n ptr).core.packetManager.sendQueue =
      Function.update n.core.packetManager.sendQueue ptr (some x.sending.queue) := by
    rw [← hmgr]
    rfl
  constructor
  · refine ⟨hmap, fun k q0 hq0 => ?_⟩
    rw [hqueue]
    by_cases hk : k = ptr
    · subst hk
      obtain rfl := Option.some.inj (hq.symm.trans hq0)
      exact ⟨_, Function.update_self _ _ _, hd.ring⟩
    · rw [Function.update_of_ne hk]
      exact ⟨q0, hq0, .refl ts _⟩
  · refine .inr ⟨x.sending.queue, ?_, fun i hi => hd.packets i (List.mem_append_left _ hi)⟩
    have hent : (x.store n ptr).core.activeSessionMap.lookup sid = some info := by rw [← hinfo, ← hmap]; rfl
    rw [sendQueueOf, hent, Option.bind_some, hptr, Option.bind_some, hqueue]
    exact Function.update_self _ _ _

theorem sendSession_dated {draw : Nat → Post} {b : Bool} {g : Ledger}
    (h : n.sendSession ts draw sid = some (b, n', g)) : Stamps ts n n' ∧ PostsDated ts n' sid g := by
  unfold sendSession at h
  split at h
  · cases h
  · rename_i info hinfo
    split at h
    · cases h
      exact ⟨.refl ts n, .inl rfl⟩
    · split at h
      · cases h
      · rename_i ptr hptr
        split at h
        · cases h
        · rename_i q hq
          -- the loop starts with the queue as it is and nothing posted
          have hsound0 : Sending.Sound n.core q ⟨n.core, info, q, none, [], 0, []⟩ :=
            ⟨rfl, rfl, .refl _, ⟨[], by simp, by simp⟩, by simp⟩
          have hdated0 : Posting.Dated ts q.ring
              ⟨⟨n.core, info, q, none, [], 0, []⟩, n.cache, ⟨[], [], [], []⟩⟩ :=
            ⟨.refl ts _, fun i hi => (List.not_mem_nil hi).elim⟩
          split at h
          · cases h
          · rename_i x hx
            cases h
            exact store_dated hinfo hptr hq (hdated0.sendIndices hx)
              (hsound0.sendIndices (Posting.sendIndices_some hx))
          · rename_i x hx
            obtain ⟨x', hf, he⟩ := Option.map_eq_some_iff.1 h
            cases he
            exact store_dated hinfo hptr hq ((hdated0.sendIndices hx).finish hf)
              ((hsound0.sendIndices (Posting.sendIndices_some hx)).finish (Posting.finish_some hf))

/-- What `sendDataPackets` posts carries the time of the call. -/
theorem sendDataPackets_dated {draw : Nat → Nat → Post} : ∀ {order : List Nat} {n n' : Node} {ret : Int}
    {log : List (Nat × Ledger)}, n.sendDataPackets ts draw order = some (ret, n', log) →
      Stamps ts n n' ∧ ∀ s ∈ log, PostsDated ts n' s.1 s.2
  | [], n, n', ret, log, h => by
    cases h
    exact ⟨.refl ts n, fun s hs => (List.not_mem_nil hs).elim⟩
  | sid :: rest, n, n', ret, log, h => by
    unfold sendDataPackets at h
    split at h
    · cases h
    · rename_i hs
      cases h
      obtain ⟨hst, hd⟩ := sendSession_dated hs
      refine ⟨hst, fun s hmem => ?_⟩
      rw [List.mem_singleton.1 hmem]
      exact hd
    · rename_i n1 g hs
      obtain ⟨hst, hd⟩ := sendSession_dated hs
      obtain ⟨⟨ret', n2, log'⟩, hr, he⟩ := Option.map_eq_some_iff.1 h
      cases he
      obtain ⟨hst', hd'⟩ := sendDataPackets_dated hr
      refine ⟨hst.trans hst', fun s hmem => ?_⟩
      rcases List.mem_cons.1 hmem with rfl | hmem
      · exact hd.stamps hst'
      · exact hd' s hmem

end Node

/-! ## Handles that own a packet -/

/-- A handle with a packet buffer has its header on the wire. -/
def PacketHandle.Plain (h : PacketHandle) : Prop := h.packetBuf.isSome = true → h.compacted = false

theorem PacketHandle.Plain.onWire_ts {h : PacketHandle} (hp : h.Plain) (hbuf : h.packetBuf.isSome = true)
    (mem : Nat → UInt8) : (h.onWire mem).ts = h.ts % 2 ^ 48 := by
  simp only [PacketHandle.onWire, hp hbuf, Bool.false_eq_true, if_false]

def SendRing.Plain (r : SendRing) : Prop := ∀ k, (r.handle k).Plain

namespace SendRing

variable {r : SendRing}

theorem claimBuffer_plain {h h' : PacketHandle} {p p' : PacketBufferPool} (hp : h.Plain)
    (hc : claimBuffer h p = some (h', p')) : h'.compacted = false := by
  unfold claimBuffer at hc
  split at hc
  · rename_i hbuf
    cases hc
    exact hp hbuf
  · obtain ⟨slot, rfl⟩ := PacketBufferPool.allocatePacket_some hc
    rfl

theorem Plain.set (h : r.Plain) {x : PacketHandle} (hx : x.compacted = false) (k : Nat) :
    (Ring.set r.handle (r.head % r.queueCapacity) x k).Plain := by
  by_cases hk : k = r.head % r.queueCapacity
  · rw [hk, Ring.set_same]
    exact fun _ => hx
  · rw [Ring.set_of_ne _ _ hk]
    exact h k

theorem Plain.fill (h : r.Plain) (tail fuel : Nat) (pool : PacketBufferPool) : (fill tail fuel r pool).2.1.Plain := by
  refine fill_rule (P := SendRing.Plain) ?_ ?_ fuel r pool h
  · intro r hd hd' pool pool' hr _ hc hl
    have hplain := claimBuffer_plain (hr _) hc
    exact hr.set (x := { hd' with inflight := true }) (by rw [load_eq hl]; exact hplain)
  · intro r hd pool pool' hr _ hc _
    have hplain := claimBuffer_plain (hr _) hc
    exact hr.set (x := r.stamp hd) hplain

end SendRing

theorem Context.sendRule_plain : SendRule (fun _ _ => True) fun q => q.ring.Plain where
  construct h := by
    obtain ⟨r, hr, rfl⟩ := Option.map_eq_some_iff.1 h
    unfold SendRing.construct at hr
    split at hr
    · cases hr
      intro k hk
      cases hk
    · cases hr
  push {q bufs pool ret sn q' pool'} h _ hp := by
    obtain ⟨ids, sq, -, -, hfill⟩ := SendQueue.push_some hp
    rw [show q' = _ from congrArg (·.2.1) hfill.symm]
    have hsq : SendRing.Plain { q.ring with secondaryQueue := sq } := h
    exact hsq.fill q.tail (q.ring.wndSize + 1) pool
  ack {q sn} pool h _ := h.fill (ackTail q.tail q.ring.head sn) (q.ring.wndSize + 1) pool
  restamp {q q'} h _ hr k hbuf := by
    obtain ⟨ts, hts⟩ := hr.handle k
    rw [hts] at hbuf ⊢
    exact h k hbuf

/-- The ACK handles of all sessions. -/
def Core.AcksPlain (c : Core) : Prop := ∀ sid e, c.activeSessionMap.lookup sid = some e → e.ackHandle.Plain

theorem Core.AcksPlain.setSession {c : Core} {sid : Nat} {e : SessionInfo} (h : c.AcksPlain) (he : e.ackHandle.Plain) :
    (c.setSession sid e).AcksPlain := by
  intro k x hx
  rw [lookup_setSession] at hx
  split at hx
  · cases hx
    exact he
  · exact h k x hx

theorem Core.ackRule_plain (wnd : ReceiveQueue → Nat) (one : Bool) :
    AckRule wnd one (fun _ _ => True) (fun _ _ _ => true) AcksPlain where
  quiet {c c'} h hq sid e' he' := by
    obtain ⟨e, he, hsame⟩ := hq.back he'
    rw [hsame.ackHandle]
    exact h sid e he
  opened {c c' sid ret} h _ ho := by
    obtain ⟨e, -, -, rfl⟩ | ⟨-, -, -, rfl⟩ | ⟨slot, pool, mgr, -, -, -, -, rfl⟩ := openSession_cases ho
    · exact h
    · exact h.setSession fun hbuf => by cases hbuf
    · exact AcksPlain.setSession h fun _ => rfl
  post {c c' sid e q p ret} h he _ _ _ hp := by
    obtain ⟨st, n, rfl, -⟩ := postAck_some hp
    exact AcksPlain.setSession h (h sid e he)
  complete {c r} h _ := by
    obtain he | ⟨sid, e, -, he, -, hc⟩ := completeSend_cases c r
    · rw [he]
      exact h
    · rw [hc]
      exact AcksPlain.setSession h (h sid e he)

/-! ## What an ACK echoes -/

namespace ReceiveQueue

variable {q q' : ReceiveQueue}

theorem fill_lastPacketTs (fuel : Nat) (q : ReceiveQueue) : (fill fuel q).lastPacketTs = q.lastPacketTs :=
  fill_rule (P := fun q' => q'.lastPacketTs = q.lastPacketTs) (fun _ hq _ => hq) fuel q rfl

theorem push_lastPacketTs {bufs : List Buffer} {ret : Int} {sn : Nat} (h : q.push bufs = some (ret, sn, q')) :
    q'.lastPacketTs = q.lastPacketTs := by
  obtain ⟨ids, sq, -, -, -, rfl⟩ := push_some h
  exact fill_lastPacketTs _ _

theorem settle_lastPacketTs (q : ReceiveQueue) : q.settle.lastPacketTs = q.lastPacketTs := by
  unfold settle fillPrimaryQueue
  rw [fill_lastPacketTs]
  exact advance_rule (P := fun q' => q'.lastPacketTs = q.lastPacketTs) (fun _ hq _ _ => hq) _ q rfl

/-- Only a packet whose payload is taken counts. -/
theorem markCompleted_lastPacketTs {p : Packet} {mv : Option MemMove} (h : q.markCompleted p = some (q', mv)) :
    q'.lastPacketTs = if mv.isSome then max q.lastPacketTs p.ts else q.lastPacketTs := by
  obtain ⟨-, rfl, rfl⟩ | ⟨-, -, rfl, rfl⟩ | ⟨-, -, -, rfl, rfl⟩ := markCompleted_cases h
  · rfl
  · exact q.settle_lastPacketTs
  · exact (q.complete p).settle_lastPacketTs

end ReceiveQueue

namespace Core

variable {c c' : Core} {sid : Nat}

/-- `last_packet_ts_` of the receive queue of a session. -/
def lastTs (c : Core) (sid : Nat) : Option Nat := (c.packetManager.receiveQueue sid).map (·.lastPacketTs)

/-- The packet of an arrival and the session it is for. -/
def sessionOf (c : Core) (a : Arrival) : Option (Packet × Nat) :=
  a.packet.bind fun p => (c.controller.findSessionOfAddress a.gid a.srcQp p.session).join.map (p, ·)

/-- Only the registered peers count. -/
theorem sessionOf_congr (h : c'.controller = c.controller) (a : Arrival) : c'.sessionOf a = c.sessionOf a := by
  unfold sessionOf
  rw [h]

/-- The receive queue takes the payload of the packet. -/
def takesPayload (c : Core) (sid : Nat) (p : Packet) : Bool :=
  ((c.packetManager.receiveQueue sid).bind (·.markCompleted p)).any (·.2.isSome)

/-- The arrival is a DATA packet of the session, and its payload is taken. -/
def accepts (c : Core) (sid : Nat) (a : Arrival) : Bool :=
  (c.sessionOf a).any fun s => decide (s.2 = sid ∧ s.1.cmd = pktCmdData) && c.takesPayload sid s.1

theorem sessionOf_eq_some {a : Arrival} {p : Packet} : c.sessionOf a = some (p, sid) ↔
    a.packet = some p ∧ c.controller.findSessionOfAddress a.gid a.srcQp p.session = some (some sid) := by
  unfold sessionOf
  constructor
  · intro h
    obtain ⟨p', hp, hx⟩ := Option.bind_eq_some_iff.1 h
    obtain ⟨s, hs, he⟩ := Option.map_eq_some_iff.1 hx
    cases he
    exact ⟨hp, Option.join_eq_some_iff.1 hs⟩
  · rintro ⟨hp, hs⟩
    rw [hp, Option.bind_some, hs]
    rfl

end Core

namespace Context

variable {c c' : Core} {sid ts : Nat} {a : Arrival}

/-- An arrival that belongs to a session goes to one of its queues. -/
theorem processReceivedPacket_of_session {p : Packet} (ha : c.sessionOf a = some (p, sid))
    (h : processReceivedPacket c ts a = some c') :
    ∃ e, c.activeSessionMap.lookup sid = some e ∧
      ((p.cmd = pktCmdData ∧ ∃ ptr q, e.receiveQueue = some ptr ∧ c.packetManager.receiveQueue ptr = some q ∧
          c.receiveData sid ptr e q p = some c') ∨
        (p.cmd ≠ pktCmdData ∧ ∃ ptr q, e.sendQueue = some ptr ∧ c.packetManager.sendQueue ptr = some q ∧
          receiveAck c ts sid ptr e q p = some c')) := by
  obtain ⟨hp, hsid⟩ := sessionOf_eq_some.1 ha
  unfold processReceivedPacket at h
  simp only [hp, hsid] at h
  split at h
  · cases h
  · rename_i e he
    refine ⟨e, he, ?_⟩
    split at h
    · rename_i hcmd
      split at h
      · cases h
      · rename_i ptr hptr
        obtain ⟨q, hq, hr⟩ := Option.bind_eq_some_iff.1 h
        exact .inl ⟨hcmd, ptr, q, hptr, hq, hr⟩
    · rename_i hcmd
      split at h
      · cases h
      · rename_i ptr hptr
        obtain ⟨q, hq, hr⟩ := Option.bind_eq_some_iff.1 h
        exact .inr ⟨hcmd, ptr, q, hptr, hq, hr⟩

/-- What an arrival does to the time that a session echoes. -/
theorem arrive_lastTs (sid : Nat) (hown : c.Entries (Own (·.receiveQueue)))
    (h : processReceivedPacket c ts a = some c') : (c.accepts sid a = false ∧ c'.lastTs sid = c.lastTs sid) ∨
      (c.accepts sid a = true ∧ ∃ p v, c.sessionOf a = some (p, sid) ∧ p.cmd = pktCmdData ∧ c.lastTs sid = some v ∧
        c'.lastTs sid = some (max v p.ts)) := by
  cases hses : c.sessionOf a with
  | none =>
    refine .inl ⟨by rw [accepts, hses]; rfl, ?_⟩
    obtain rfl | ⟨p, s, e, hp, hs, -⟩ := processReceivedPacket_some h
    · rfl
    · rw [sessionOf_eq_some.2 ⟨hp, hs⟩] at hses
      cases hses
  | some r =>
    obtain ⟨p, s⟩ := r
    have hacc : c.accepts sid a = (decide (s = sid ∧ p.cmd = pktCmdData) && c.takesPayload sid p) := by
      rw [accepts, hses]
      rfl
    rw [hacc]
    obtain ⟨e, he, ⟨hcmd, ptr, q, hptr, hq, hd⟩ | ⟨hcmd, ptr, q, -, -, hr⟩⟩ := processReceivedPacket_of_session hses h
    · obtain rfl := hown s e he ptr hptr
      obtain ⟨q', mv, mem, hm, rfl⟩ := receiveData_some hd
      have hlast := ReceiveQueue.markCompleted_lastPacketTs hm
      by_cases hs : ptr = sid
      · subst hs
        have htake : c.takesPayload ptr p = mv.isSome := by
          rw [takesPayload, hq, Option.bind_some, hm]
          rfl
        have hnew : lastTs
            ({ c with packetManager := c.packetManager.setReceiveQueue ptr q', mem := mem }.setSession ptr
            { e with recvPackets := e.recvPackets + 1 }) ptr = some q'.lastPacketTs := by
          show (Function.update c.packetManager.receiveQueue ptr (some q') ptr).map _ = _
          rw [Function.update_self]
          rfl
        have hold : c.lastTs ptr = some q.lastPacketTs := by
          rw [lastTs, hq]
          rfl
        rw [htake, hnew, hold, hlast]
        cases mv.isSome with
        | false => exact .inl ⟨by simp, rfl⟩
        | true => exact .inr ⟨by simp [hcmd], p, _, rfl, hcmd, rfl, rfl⟩
      · refine .inl ⟨by simp [hs], ?_⟩
        show (Function.update c.packetManager.receiveQueue ptr (some q') sid).map _ = _
        rw [Function.update_of_ne (Ne.symm hs)]
        rfl
    · obtain ⟨cwnd, incr, srtt, rttval, rfl⟩ := receiveAck_some hr
      exact .inl ⟨by simp [hcmd], rfl⟩

/-- A queue that is set up has echoed nothing. -/
theorem openSession_lastTs {k : Nat} {ret : Int} (ho : c.openSession k = some (ret, c')) :
    c'.lastTs sid = c.lastTs sid ∨ (c.lastTs sid = none ∧ c'.lastTs sid = some 0) := by
  unfold lastTs
  obtain he | ⟨pool, hset⟩ := openSession_manager ho
  · rw [he]
    exact .inl rfl
  · obtain he | ⟨hn, q, hq, he⟩ := hset.receive
    · rw [he]
      exact .inl rfl
    · rw [he]
      by_cases hk : sid = k
      · subst hk
        refine .inr ⟨by rw [show c.packetManager.receiveQueue sid = none from hn]; rfl, ?_⟩
        unfold ReceiveQueue.construct at hq
        split at hq
        · cases hq
          rw [Function.update_self]
          rfl
        · cases hq
      · rw [Function.update_of_ne hk]
        exact .inl rfl

/-- Nor does any other event than an arrival change what a session echoes. -/
theorem step_lastTs {e : Event} (hs : step c e = some c') (hno : ∀ ts a, e ≠ .arrive ts a) :
    c'.lastTs sid = c.lastTs sid ∨ (c.lastTs sid = none ∧ c'.lastTs sid = some 0) := by
  cases effect hs with
  | refused _ ho => exact openSession_lastTs ho
  | @sendPushed _ _ _ _ _ c1 _ _ _ _ _ _ _ ho _ _ _ _ hpu =>
    have hlast : c'.lastTs sid = c1.lastTs sid := by
      unfold lastTs
      rw [hpu.packetManager]
      rfl
    rw [hlast]
    exact openSession_lastTs ho
  | @receivePushed _ _ _ ptr _ c1 _ _ q q' _ _ ho _ _ hq hpush hpu =>
    have hlast : c'.lastTs sid = c1.lastTs sid := by
      unfold lastTs
      rw [hpu.packetManager]
      show (Function.update c1.packetManager.receiveQueue ptr (some q') sid).map _ = _
      by_cases hk : sid = ptr
      · subst hk
        rw [Function.update_self, hq, Option.map_some, Option.map_some, ReceiveQueue.push_lastPacketTs hpush]
      · rw [Function.update_of_ne hk]
    rw [hlast]
    exact openSession_lastTs ho
  | acksSent hx =>
    unfold lastTs
    rw [sendAcks_packetManager hx]
    exact .inl rfl
  | dataSent hx =>
    have hsame : c'.packetManager.receiveQueue = c.packetManager.receiveQueue := by
      refine sendDataPackets_rule (P := fun x => x.packetManager.receiveQueue = c.packetManager.receiveQueue) ?_ rfl hx
      intro x k b x' r hx hses
      obtain rfl | ⟨e, ptr, q, q', st, ds, -, -, -, -, -, -, -, rfl⟩ := sendSession_some hses
      · exact hx
      · exact hx
    unfold lastTs
    rw [hsame]
    exact .inl rfl
  | dataArrived => exact absurd rfl (hno _ _)
  | ackArrived => exact absurd rfl (hno _ _)
  | completed =>
    unfold lastTs
    rw [completeSend_packetManager]
    exact .inl rfl
  | _ => exact .inl rfl

end Context

namespace Core

variable {c c' : Core} {sid : Nat}

/-- The ACK handle of the session owns a packet, and carries the time that the session echoes. -/
def Echoes (c : Core) (sid : Nat) : Prop :=
  ∃ e q, c.activeSessionMap.lookup sid = some e ∧ e.receiveQueue.bind c.packetManager.receiveQueue = some q ∧
    e.ackHandle.ts = q.lastPacketTs ∧ e.ackHandle.packetBuf.isSome = true

/-- The requests an ACK adds are its own, and it has a packet then. -/
theorem postAck_outstanding {wnd : ReceiveQueue → Nat} {one : Bool} {e : SessionInfo} {q : ReceiveQueue} {p : Post}
    {ret : Int} (h : postAck wnd one c sid e q p = some (ret, c')) :
    ∃ ds, c'.endpointStore.outstanding = c.endpointStore.outstanding ++ ds ∧
      ∀ d ∈ ds, d.2.context = some sid ∧ e.ackHandle.packetBuf.isSome = true := by
  obtain ⟨st0, hst0, hout⟩ := getOrCreateEndpoint_snd
    (c.setSession sid { e with ackHandle := ackHeader sid (wnd q) q e.ackHandle }) sid
  have hout : st0.outstanding = c.endpointStore.outstanding := hout
  obtain ⟨-, rfl⟩ | ⟨-, rfl⟩ | ⟨hbuf, ep, r, st, hp, hc⟩ := postAck_cases rfl h
  · exact ⟨[], (List.append_nil _).symm, fun x hx => (List.not_mem_nil hx).elim⟩
  · rw [hst0]
    exact ⟨[], by rw [List.append_nil, hout], fun x hx => (List.not_mem_nil hx).elim⟩
  · obtain ⟨qp, j, hj⟩ := EndpointStore.postSendRequest_outstanding hp
    rw [hst0] at hj
    have hst : c'.endpointStore = st := by rcases hc with ⟨-, rfl⟩ | ⟨-, rfl⟩ <;> rfl
    refine ⟨_, hst ▸ hj.trans (congrArg (· ++ _) hout), fun x hx => ?_⟩
    obtain ⟨r, hr, rfl⟩ := List.mem_map.1 hx
    rw [List.mem_singleton.1 (List.mem_of_mem_take hr)]
    exact ⟨rfl, hbuf⟩

/-- Whatever requests `sendAcks` adds, the sessions they are of echo their receive queues. -/
theorem sendAcks_echoes {wnd : ReceiveQueue → Nat} {one : Bool} {order : List (Nat × Post)} {ret : Int}
    (h : sendAcks wnd one order c = some (ret, c')) :
    ∃ ds, c'.endpointStore.outstanding = c.endpointStore.outstanding ++ ds ∧
      ∀ d ∈ ds, ∀ sid, d.2.context = some sid → c'.Echoes sid := by
  refine sendAcks_rule (P := fun x => ∃ ds, x.endpointStore.outstanding = c.endpointStore.outstanding ++ ds ∧
    ∀ d ∈ ds, ∀ sid, d.2.context = some sid → x.Echoes sid) ?_
    ⟨[], (List.append_nil _).symm, fun d hd => (List.not_mem_nil hd).elim⟩ (acksAll_true wnd one order c) h
  rintro x k e q p r x' ⟨ds, hout, hds⟩ he hq - - hp
  obtain ⟨ds', hout', hds'⟩ := postAck_outstanding hp
  obtain ⟨st, n, rfl, -⟩ := postAck_some hp
  -- the entry of the session that is acknowledged
  have hnew : e.ackHandle.packetBuf.isSome = true → Echoes ({ x with endpointStore := st }.setSession k
      { e with ackHandle := ackHeader k (wnd q) q e.ackHandle, ackPackets := n }) k := by
    intro hbuf
    exact ⟨{ e with ackHandle := ackHeader k (wnd q) q e.ackHandle, ackPackets := n }, q,
      by rw [lookup_setSession, if_pos rfl], hq, rfl, hbuf⟩
  refine ⟨ds ++ ds', by rw [hout', hout, List.append_assoc], fun d hd sid hctx => ?_⟩
  rcases List.mem_append.1 hd with hd | hd
  · have hold := hds d hd sid hctx
    by_cases hk : sid = k
    · subst hk
      obtain ⟨e0, -, he0, -, -, hbuf⟩ := hold
      obtain rfl := Option.some.inj (he.symm.trans he0)
      exact hnew hbuf
    · obtain ⟨e0, q0, he0, hq0, hts, hbuf⟩ := hold
      exact ⟨e0, q0, by rw [lookup_setSession, if_neg hk]; exact he0, hq0, hts, hbuf⟩
  · obtain ⟨hk, hbuf⟩ := hds' d hd
    obtain rfl := Option.some.inj (hk.symm.trans hctx)
    exact hnew hbuf

end Core

end RapidTransfer
