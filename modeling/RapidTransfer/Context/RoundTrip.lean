/-
Round-trip times. Two contexts talk over one unicast session: the sender's DATA packets carry the time they were sent
at, the receiver's ACKs echo the largest time its queue has accepted, and the sender takes the difference to its clock
for a round-trip time. The network may lose, duplicate, delay and reorder whatever was posted. `Exchange` is the two
nodes with what has gone over the wire between them.

A receiver counts every DATA packet of the session, and acknowledges it, also one that its queue does not accept: when
the data is there before the `receive`, the ACK echoes the 0 that `last_packet_ts_` starts with, and the sender's
sample is its whole clock (`sample_of_empty_echo`). When every ACK that is processed was built after the queue had
accepted a packet, all samples are real (`samples_real`), whatever the clock reads: an ACK then carries the low 48 bits
of a time that the sender did send at, and in a run of less than 2^48 microseconds these determine the difference.
-/
import RapidTransfer.Context.Echo
import RapidTransfer.Lib.Bytes

namespace RapidTransfer

open RapidTransfer.Core RapidTransfer.Context

/-- Two contexts and what was posted between them. -/
structure Exchange where
  sender : Node
  receiver : Node
  -- the last time the sender read its clock
  clock : Nat
  -- the times at which DATA packets of the session were posted, and the packets
  sentAt : List Nat
  data : List Packet
  -- whether the receive queue has accepted a packet, and the ACKs with what held when they were built
  accepted : Bool
  acks : List (Packet × Bool)
  -- the arguments of `updateRTO`, each with the clock
  samples : List (Nat × Nat)

/-- The session as the two ends name it, and the time the run begins at. -/
structure Session where
  atSender : Nat
  atReceiver : Nat
  startTs : Nat

namespace Exchange

inductive Event
  | atSender (e : Node.Event)
  | atReceiver (e : Node.Event)

/-! ## What goes over the wire -/

/-- The DATA packets of a session that a call of `sendDataPackets` posted. -/
def postedData (n : Node) (log : List (Nat × Ledger)) (sid : Nat) : List Packet :=
  (log.filter (·.1 = sid)).flatMap fun s => s.2.posted.filterMap fun i =>
    (Node.sendQueueOf n.core sid).map fun q => (q.ring.getMutableEntry i).onWire n.core.mem

/-- The ACK of a session, if a call of `sendAckPackets` posted one. -/
def postedAck (n n' : Node) (sid : Nat) : Option Packet :=
  if (n'.core.endpointStore.outstanding.drop n.core.endpointStore.outstanding.length).any (·.2.context = some sid) then
    (n'.core.activeSessionMap.lookup sid).map fun e => e.ackHandle.onWire n'.core.mem
  else none

/-- The argument of `updateRTO` for an arrival, if it is an ACK of the session. -/
def sample (c : Core) (sid ts : Nat) (a : Arrival) : Option (Nat × Nat) :=
  ((c.sessionOf a).filter fun s => s.2 = sid ∧ s.1.cmd ≠ pktCmdData).map fun s => (ts, rttOf ts s.1.ts)

/-! ## The system -/

def receiveAtSender (m : Session) (ts : Nat) (x : Exchange) (w : Completion) : Option Exchange :=
  (x.sender.completeReceive ts w).map fun n =>
    { x with sender := n, samples := x.samples ++ (sample x.sender.core m.atSender ts w.arrival).toList }

def receiveAtReceiver (m : Session) (ts : Nat) (x : Exchange) (w : Completion) : Option Exchange :=
  (x.receiver.completeReceive ts w).map fun n =>
    { x with receiver := n, accepted := x.accepted || x.receiver.core.accepts m.atReceiver w.arrival }

def step (m : Session) (x : Exchange) : Event → Option Exchange
  | .atSender (.sendData ts order draw) =>
    (x.sender.sendDataPackets ts draw order).map fun r =>
      let posted := postedData r.2.1 r.2.2 m.atSender
      { x with
        sender := r.2.1
        clock := ts
        sentAt := x.sentAt ++ posted.map fun _ => ts
        data := x.data ++ posted }
  | .atSender (.pollReceives ts ws) => ws.foldlM (receiveAtSender m ts) { x with clock := ts }
  | .atSender e => (x.sender.step e).map fun n => { x with sender := n }
  | .atReceiver (.sendAcks order) =>
    (x.receiver.sendAckPackets order).map fun r =>
      { x with
        receiver := r.2
        acks := x.acks ++ ((postedAck x.receiver r.2 m.atReceiver).map (·, x.accepted)).toList }
  | .atReceiver (.pollReceives ts ws) => ws.foldlM (receiveAtReceiver m ts) x
  | .atReceiver e => (x.receiver.step e).map fun n => { x with receiver := n }

/-- The time an event reads from the clock. -/
def clockOf : Node.Event → Option Nat
  | .sendData ts _ _ => some ts
  | .pollReceives ts _ => some ts
  | _ => none

def arrivals : Node.Event → List Arrival
  | .pollReceives _ ws => ws.map (·.arrival)
  | _ => []

/-- The clock does not go back, and the run is shorter than 2^48 microseconds. -/
def OnTime (m : Session) (x : Exchange) (e : Node.Event) : Prop :=
  ∀ ts ∈ clockOf e, x.clock ≤ ts ∧ ts < m.startTs + 2 ^ 48

/-- What the nodes, the clock and the network guarantee: packets of the session are packets that were posted. -/
def ok (m : Session) (x : Exchange) : Event → Prop
  | .atSender e => x.sender.ok e ∧ OnTime m x e ∧ ∀ a ∈ arrivals e, ∀ s ∈ x.sender.core.sessionOf a,
      s.2 = m.atSender → s.1.cmd ≠ pktCmdData → (s.1, true) ∈ x.acks ∨ (s.1, false) ∈ x.acks
  | .atReceiver e => x.receiver.ok e ∧ ∀ a ∈ arrivals e, ∀ s ∈ x.receiver.core.sessionOf a,
      s.2 = m.atReceiver → s.1.cmd = pktCmdData → s.1 ∈ x.data

/-- Besides, an ACK that the sender processes was built when the receive queue had accepted a packet. -/
def Echoing (m : Session) (x : Exchange) : Event → Prop
  | .atSender e => ok m x (.atSender e) ∧ ∀ a ∈ arrivals e, ∀ s ∈ x.sender.core.sessionOf a,
      s.2 = m.atSender → s.1.cmd ≠ pktCmdData → (s.1, true) ∈ x.acks
  | .atReceiver e => ok m x (.atReceiver e)

instance (m : Session) (x : Exchange) (e : Node.Event) : Decidable (OnTime m x e) :=
  inferInstanceAs (Decidable (∀ ts ∈ clockOf e, _))

instance (m : Session) (x : Exchange) : ∀ ev, Decidable (ok m x ev)
  | .atSender e => inferInstanceAs (Decidable (x.sender.ok e ∧ OnTime m x e ∧
      ∀ a ∈ arrivals e, ∀ s ∈ x.sender.core.sessionOf a, s.2 = m.atSender → s.1.cmd ≠ pktCmdData →
        (s.1, true) ∈ x.acks ∨ (s.1, false) ∈ x.acks))
  | .atReceiver e => inferInstanceAs (Decidable (x.receiver.ok e ∧
      ∀ a ∈ arrivals e, ∀ s ∈ x.receiver.core.sessionOf a, s.2 = m.atReceiver → s.1.cmd = pktCmdData → s.1 ∈ x.data))

instance (m : Session) (x : Exchange) : ∀ ev, Decidable (Echoing m x ev)
  | .atSender e => inferInstanceAs (Decidable (ok m x (.atSender e) ∧
      ∀ a ∈ arrivals e, ∀ s ∈ x.sender.core.sessionOf a, s.2 = m.atSender → s.1.cmd ≠ pktCmdData →
        (s.1, true) ∈ x.acks))
  | .atReceiver e => inferInstanceAs (Decidable (ok m x (.atReceiver e)))

def start (sender receiver : Node) (m : Session) : Exchange :=
  { sender := sender, receiver := receiver, clock := m.startTs, sentAt := [], data := [], accepted := false, acks := [],
    samples := [] }

variable {m : Session} {x x' : Exchange}

/-! ## The two nodes -/

theorem receiveAllAtSender {ts : Nat} {ws : List Completion} (h : ws.foldlM (receiveAtSender m ts) x = some x') :
    x.sender.pollReceives ts ws = some x'.sender ∧ x' = { x with sender := x'.sender, samples := x'.samples } := by
  constructor
  · rw [Node.pollReceives_eq_foldlM]
    refine Runs.foldlM_project (f := Exchange.sender) (fun y w y' hy => ?_) h
    obtain ⟨n, hn, rfl⟩ := Option.map_eq_some_iff.1 hy
    exact hn
  · obtain ⟨n, samples, rfl⟩ : ∃ n samples, x' = { x with sender := n, samples := samples } := by
      refine Runs.foldlM_invariant (P := fun y => ∃ n samples, y = { x with sender := n, samples := samples }) h
        ⟨x.sender, x.samples, rfl⟩ ?_
      rintro w - y y' ⟨n, samples, rfl⟩ hy
      obtain ⟨n', -, rfl⟩ := Option.map_eq_some_iff.1 hy
      exact ⟨_, _, rfl⟩
    rfl

theorem receiveAllAtReceiver {ts : Nat} {ws : List Completion}
    (h : ws.foldlM (receiveAtReceiver m ts) x = some x') :
    x.receiver.pollReceives ts ws = some x'.receiver ∧
      x' = { x with receiver := x'.receiver, accepted := x'.accepted } := by
  constructor
  · rw [Node.pollReceives_eq_foldlM]
    refine Runs.foldlM_project (f := Exchange.receiver) (fun y w y' hy => ?_) h
    obtain ⟨n, hn, rfl⟩ := Option.map_eq_some_iff.1 hy
    exact hn
  · obtain ⟨n, accepted, rfl⟩ : ∃ n accepted, x' = { x with receiver := n, accepted := accepted } := by
      refine Runs.foldlM_invariant (P := fun y => ∃ n accepted, y = { x with receiver := n, accepted := accepted }) h
        ⟨x.receiver, x.accepted, rfl⟩ ?_
      rintro w - y y' ⟨n, accepted, rfl⟩ hy
      obtain ⟨n', -, rfl⟩ := Option.map_eq_some_iff.1 hy
      exact ⟨_, _, rfl⟩
    rfl

/-- An event at one end is an event of its node, and the other node is left alone. -/
theorem step_nodes {ev : Event} (h : step m x ev = some x') :
    (∃ e, ev = .atSender e ∧ x.sender.step e = some x'.sender ∧ x'.receiver = x.receiver) ∨
      ∃ e, ev = .atReceiver e ∧ x.receiver.step e = some x'.receiver ∧ x'.sender = x.sender := by
  cases ev with
  | atSender e =>
    refine .inl ⟨e, rfl, ?_⟩
    cases e with
    | sendData ts order draw =>
      obtain ⟨r, hr, rfl⟩ := Option.map_eq_some_iff.1 h
      exact ⟨by rw [Node.step, hr]; rfl, rfl⟩
    | pollReceives ts ws =>
      obtain ⟨hpoll, hx'⟩ := receiveAllAtSender h
      refine ⟨hpoll, ?_⟩
      rw [hx']
    | pollSends rs =>
      cases h
      exact ⟨rfl, rfl⟩
    | _ =>
      obtain ⟨n, hn, rfl⟩ := Option.map_eq_some_iff.1 h
      exact ⟨hn, rfl⟩
  | atReceiver e =>
    refine .inr ⟨e, rfl, ?_⟩
    cases e with
    | sendAcks order =>
      obtain ⟨r, hr, rfl⟩ := Option.map_eq_some_iff.1 h
      exact ⟨by rw [Node.step, hr]; rfl, rfl⟩
    | pollReceives ts ws =>
      obtain ⟨hpoll, hx'⟩ := receiveAllAtReceiver h
      refine ⟨hpoll, ?_⟩
      rw [hx']
    | pollSends rs =>
      cases h
      exact ⟨rfl, rfl⟩
    | _ =>
      obtain ⟨n, hn, rfl⟩ := Option.map_eq_some_iff.1 h
      exact ⟨hn, rfl⟩

end Exchange

/-- What the context keeps is kept by the node. -/
theorem Node.step_invariant {P : Core → Prop}
    (hP : ∀ c e c', P c → Context.ok c e → Context.step c e = some c' → P c') {n n' : Node} {e : Node.Event}
    (hok : n.ok e) (hs : n.step e = some n') (h : P n.core) : P n'.core := by
  obtain ⟨es, hrun⟩ := Node.step_core hok hs
  exact hrun.invariant h hP

theorem Node.pollSends_packetManager (rs : List (Nat × Request)) (n : Node) :
    (n.pollSends rs).core.packetManager = n.core.packetManager := by
  induction rs generalizing n with
  | nil => rfl
  | cons r rs ih => exact (ih (n.completeSend r)).trans (completeSend_packetManager n.core r)

/-- Only a poll of the receive queue changes what a session echoes, once it has a queue. -/
theorem Node.step_lastTs {n n' : Node} {e : Node.Event} {sid : Nat} (hok : n.ok e) (hs : n.step e = some n')
    (hno : ∀ ts ws, e ≠ .pollReceives ts ws) :
    n'.core.lastTs sid = n.core.lastTs sid ∨ (n.core.lastTs sid = none ∧ n'.core.lastTs sid = some 0) := by
  cases e with
  | call f =>
    obtain ⟨core, hc, rfl⟩ := Option.map_eq_some_iff.1 hs
    refine Context.step_lastTs hc fun ts a => ?_
    rintro rfl
    cases hok
  | sendAcks order =>
    obtain ⟨⟨ret, m⟩, hm, rfl⟩ := Option.map_eq_some_iff.1 hs
    refine Context.step_lastTs (e := .sendAcks order) ?_ fun ts a he => by cases he
    simp only [Context.step, sendAckPackets_some hm, Option.map_some]
  | sendData ts order draw =>
    obtain ⟨⟨ret, m, log⟩, hm, rfl⟩ := Option.map_eq_some_iff.1 hs
    obtain ⟨resent, hc⟩ := sendDataPackets_some hm
    refine Context.step_lastTs (e := .sendData ts order draw) ?_ fun ts a he => by cases he
    simp only [Context.step, hc, Option.map_some]
  | pollReceives ts ws => exact absurd rfl (hno ts ws)
  | pollSends rs =>
    cases hs
    unfold lastTs
    rw [pollSends_packetManager]
    exact .inl rfl

namespace Exchange

variable {m : Session} {x x' : Exchange}

/-! ## Times on the wire -/

/-- The low 48 bits of a time at which a DATA packet was sent. -/
def Stamp (x : Exchange) (v : Nat) : Prop := ∃ t ∈ x.sentAt, v = t % 2 ^ 48

theorem Stamp.max {v w : Nat} (hv : x.Stamp v) (hw : x.Stamp w) : x.Stamp (max v w) := by
  rcases le_total v w with h | h
  · rw [Nat.max_eq_right h]
    exact hw
  · rw [Nat.max_eq_left h]
    exact hv

/-- In less than 2^48 microseconds the low bits of a time determine the time that has passed. -/
theorem rttOf_stamp {ts t : Nat} (hle : t ≤ ts) (hlt : ts < t + 2 ^ 48) : rttOf ts (t % 2 ^ 48) = ts - t := by
  unfold rttOf sub64
  omega

/-- Send slots and ACK handles have their headers on the wire, and every session of the receiver has its own queue. -/
structure Headed (x : Exchange) : Prop where
  data : Queues (fun q => q.ring.Plain) x.sender.core.packetManager.sendQueue
  acks : x.receiver.core.AcksPlain
  own : x.receiver.core.Entries (Own (·.receiveQueue))

/-- The receiver echoes a time of the sender once its queue has accepted a packet, and 0 before. -/
def Echo (m : Session) (x : Exchange) : Prop :=
  if x.accepted then ∃ v, x.receiver.core.lastTs m.atReceiver = some v ∧ x.Stamp v
  else ∀ v, x.receiver.core.lastTs m.atReceiver = some v → v = 0

/-- The times lie between the start and the clock, every DATA packet carries one of them, the receiver echoes one of
them or 0, and so do the ACKs, each as it was when it was built. -/
structure Wired (m : Session) (x : Exchange) : Prop where
  started : m.startTs ≤ x.clock
  times : ∀ t ∈ x.sentAt, m.startTs ≤ t ∧ t ≤ x.clock
  data : ∀ p ∈ x.data, x.Stamp p.ts
  echo : Echo m x
  acks : ∀ a ∈ x.acks, if a.2 then x.Stamp a.1.ts else a.1.ts = 0

theorem entryRule_ownReceive : EntryRule (Own (·.receiveQueue)) :=
  entryRule_own (fun hk => hk.receiveQueue) (fun _ => rfl) fun _ _ _ => rfl

theorem Headed.step {ev : Event} (h : Headed x) (hok : ok m x ev) (hs : step m x ev = some x') : Headed x' := by
  obtain ⟨e, rfl, hn, hr⟩ | ⟨e, rfl, hn, hr⟩ := step_nodes hs
  · refine ⟨?_, hr ▸ h.acks, hr ▸ h.own⟩
    exact Node.step_invariant (P := fun c => Queues (fun q => q.ring.Plain) c.packetManager.sendQueue)
      (fun c e c' hc _ hs => sendQueues_step sendRule_plain hc (fun _ _ _ => trivial) hs) hok.1 hn h.data
  · refine ⟨hr ▸ h.data, ?_, ?_⟩
    · refine Node.step_invariant (fun c e c' hc hok hs => ?_) hok.1 hn h.acks
      refine step_ack (ackRule_plain ackWnd false) hc hok (fun _ _ => trivial) ?_ hs
      cases e with
      | sendAcks order => exact acksAll_true ackWnd false order c
      | _ => rfl
    · exact Node.step_invariant (P := Entries (Own (·.receiveQueue)))
        (fun c e c' hc _ hs => entries_step entryRule_ownReceive hc hs) hok.1 hn h.own

/-! ## Steps of the sender -/

/-- A DATA packet carries the time of the call. -/
theorem postedData_ts {n n' : Node} {ts sid : Nat} {draw : Nat → Nat → Post} {order : List Nat} {ret : Int}
    {log : List (Nat × Ledger)} (hplain : Queues (fun q => q.ring.Plain) n'.core.packetManager.sendQueue)
    (hs : n.sendDataPackets ts draw order = some (ret, n', log)) {p : Packet} (hp : p ∈ postedData n' log sid) :
    p.ts = ts % 2 ^ 48 := by
  obtain ⟨⟨k, g⟩, hmem, hp⟩ := List.mem_flatMap.1 hp
  obtain ⟨hlog, hk⟩ := List.mem_filter.1 hmem
  obtain rfl : k = sid := of_decide_eq_true hk
  obtain ⟨i, hi, hx⟩ := List.mem_filterMap.1 hp
  obtain ⟨q, hq, rfl⟩ := Option.map_eq_some_iff.1 hx
  rcases (Node.sendDataPackets_dated hs).2 _ hlog with hnil | ⟨q', hq', hdated⟩
  · rw [hnil] at hi
    cases hi
  · obtain rfl := Option.some.inj (hq.symm.trans hq')
    obtain ⟨hts, hbuf⟩ := hdated i hi
    obtain ⟨ptr, -, hq⟩ := Option.bind_eq_some_iff.1 hq
    have hentry : (q.ring.getMutableEntry i).Plain := hplain ptr q hq _
    rw [hentry.onWire_ts hbuf, hts]

/-- Times that were sent at stay, so what is on the wire stays a stamp. -/
theorem Stamp.mono {v : Nat} (h : x.Stamp v) (hsub : x.sentAt ⊆ x'.sentAt) : x'.Stamp v := by
  obtain ⟨t, ht, rfl⟩ := h
  exact ⟨t, hsub ht, rfl⟩

/-- The sender moves on: its clock, and the packets it posts. -/
theorem Wired.advance (h : Wired m x) {n : Node} {ts : Nat} (hts : x.clock ≤ ts) (posted : List Packet)
    (hposted : ∀ p ∈ posted, p.ts = ts % 2 ^ 48) (samples : List (Nat × Nat)) :
    Wired m { x with sender := n, clock := ts, sentAt := x.sentAt ++ posted.map fun _ => ts, data := x.data ++ posted,
                     samples := samples } := by
  have hsub : x.sentAt ⊆ x.sentAt ++ posted.map fun _ => ts := List.subset_append_left _ _
  constructor
  · exact h.started.trans hts
  · intro t ht
    rcases List.mem_append.1 ht with ht | ht
    · exact ⟨(h.times t ht).1, (h.times t ht).2.trans hts⟩
    · obtain ⟨p, -, rfl⟩ := List.mem_map.1 ht
      exact ⟨h.started.trans hts, le_refl _⟩
  · intro p hp
    rcases List.mem_append.1 hp with hp | hp
    · exact (h.data p hp).mono hsub
    · exact ⟨ts, List.mem_append_right _ (List.mem_map.2 ⟨p, hp, rfl⟩), hposted p hp⟩
  · have hecho := h.echo
    unfold Echo at hecho ⊢
    split
    · rename_i hacc
      rw [if_pos hacc] at hecho
      obtain ⟨v, hv, hstamp⟩ := hecho
      exact ⟨v, hv, hstamp.mono hsub⟩
    · rename_i hacc
      rw [if_neg hacc] at hecho
      exact hecho
  · intro a ha
    have hack := h.acks a ha
    split
    · rename_i htrue
      rw [if_pos htrue] at hack
      exact hack.mono hsub
    · rename_i hfalse
      rw [if_neg hfalse] at hack
      exact hack

/-- Nothing is posted. -/
theorem Wired.quiet (h : Wired m x) {n : Node} {ts : Nat} (hts : x.clock ≤ ts) (samples : List (Nat × Nat)) :
    Wired m { x with sender := n, clock := ts, samples := samples } := by
  have := h.advance (n := n) hts [] (fun p hp => (List.not_mem_nil hp).elim) samples
  simpa using this

theorem Wired.stepSender {e : Node.Event} (h : Wired m x) (hheaded : Headed x') (hok : ok m x (.atSender e))
    (hs : step m x (.atSender e) = some x') : Wired m x' := by
  obtain ⟨-, htime, -⟩ := hok
  cases e with
  | sendData ts order draw =>
    obtain ⟨⟨ret, n, log⟩, hr, rfl⟩ := Option.map_eq_some_iff.1 hs
    exact h.advance (htime ts rfl).1 _ (fun p hp => postedData_ts hheaded.data hr hp) x.samples
  | pollReceives ts ws =>
    obtain ⟨-, hx'⟩ := receiveAllAtSender hs
    rw [hx']
    exact h.quiet (htime ts rfl).1 x'.samples
  | pollSends rs =>
    cases hs
    exact h.quiet (le_refl _) x.samples
  | _ =>
    obtain ⟨n, -, rfl⟩ := Option.map_eq_some_iff.1 hs
    exact h.quiet (le_refl _) x.samples

/-! ## Steps of the receiver -/

/-- An ACK carries what its session echoes. -/
theorem postedAck_ts {n n' : Node} {sid : Nat} {order : List (Nat × Post)} {ret : Int}
    (hplain : n'.core.AcksPlain) (hown : n'.core.Entries (Own (·.receiveQueue)))
    (hs : n.sendAckPackets order = some (ret, n')) {p : Packet} (hp : postedAck n n' sid = some p) :
    ∃ v, n'.core.lastTs sid = some v ∧ p.ts = v % 2 ^ 48 := by
  obtain ⟨ds, hout, hds⟩ := sendAcks_echoes (Node.sendAckPackets_some hs)
  unfold postedAck at hp
  split at hp
  · rename_i hany
    rw [hout, List.drop_left] at hany
    obtain ⟨d, hd, hctx⟩ := List.any_eq_true.1 hany
    obtain ⟨e, q, he, hq, hts, hbuf⟩ := hds d hd sid (of_decide_eq_true hctx)
    rw [he] at hp
    obtain ⟨ptr, hptr, hq⟩ := Option.bind_eq_some_iff.1 hq
    obtain rfl := hown sid e he ptr hptr
    obtain rfl := Option.some.inj hp
    refine ⟨q.lastPacketTs, by rw [lastTs, hq]; rfl, ?_⟩
    rw [(hplain _ e he).onWire_ts hbuf, hts]
  · cases hp

/-- The receiver's events leave the times and the DATA packets alone. -/
theorem Wired.receiver (h : Wired m x) {n : Node} {accepted : Bool} {acks : List (Packet × Bool)}
    (hecho : Echo m { x with receiver := n, accepted := accepted, acks := acks })
    (hacks : ∀ a ∈ acks, if a.2 then x.Stamp a.1.ts else a.1.ts = 0) :
    Wired m { x with receiver := n, accepted := accepted, acks := acks } :=
  ⟨h.started, h.times, h.data, hecho, hacks⟩

/-- A session that echoes the same, or has a queue now, is as good as before. -/
theorem Echo.of_lastTs {n : Node} {acks : List (Packet × Bool)} (h : Echo m x)
    (hlast : n.core.lastTs m.atReceiver = x.receiver.core.lastTs m.atReceiver ∨
      (x.receiver.core.lastTs m.atReceiver = none ∧ n.core.lastTs m.atReceiver = some 0)) :
    Echo m { x with receiver := n, acks := acks } := by
  unfold Echo at h ⊢
  rcases hlast with heq | ⟨hnone, hzero⟩
  · dsimp only
    rw [heq]
    exact h
  · dsimp only
    rw [hnone] at h
    split
    · -- a queue that has accepted something is there
      rename_i hacc
      rw [if_pos hacc] at h
      obtain ⟨v, hv, -⟩ := h
      cases hv
    · intro v hv
      rw [hzero] at hv
      exact (Option.some.inj hv).symm

/-- What an ACK of the session carries. -/
theorem Echo.ack {ts : Nat} (h : Echo m x)
    (hts : ∃ v, x.receiver.core.lastTs m.atReceiver = some v ∧ ts = v % 2 ^ 48) :
    if x.accepted then x.Stamp ts else ts = 0 := by
  obtain ⟨v, hv, rfl⟩ := hts
  unfold Echo at h
  split
  · rename_i hacc
    rw [if_pos hacc] at h
    obtain ⟨v', hv', t, ht, rfl⟩ := h
    obtain rfl := Option.some.inj (hv.symm.trans hv')
    exact ⟨t, ht, Nat.mod_mod _ _⟩
  · rename_i hacc
    rw [if_neg hacc] at h
    rw [h v hv, Nat.zero_mod]

theorem arrive_controller {c c' : Core} {ts : Nat} {a : Arrival} (h : processReceivedPacket c ts a = some c') :
    c'.controller = c.controller := by
  obtain rfl | ⟨p, sid, e, -, -, -, ⟨-, ptr, q, -, -, hd⟩ | ⟨-, ptr, q, -, -, hr⟩⟩ := processReceivedPacket_some h
  · rfl
  · obtain ⟨q', mv, mem, -, rfl⟩ := receiveData_some hd
    rfl
  · obtain ⟨cwnd, incr, srtt, rttval, rfl⟩ := receiveAck_some hr
    rfl

/-- One completion at the receiver. -/
theorem Wired.receive {ts : Nat} {w : Completion} (h : Wired m x)
    (hown : x.receiver.core.Entries (Own (·.receiveQueue)))
    (hgenuine : ∀ s ∈ x.receiver.core.sessionOf w.arrival, s.2 = m.atReceiver → s.1.cmd = pktCmdData → s.1 ∈ x.data)
    (hs : receiveAtReceiver m ts x w = some x') : Wired m x' := by
  obtain ⟨n, hn, rfl⟩ := Option.map_eq_some_iff.1 hs
  refine h.receiver ?_ h.acks
  have hecho := h.echo
  unfold Echo at hecho ⊢
  dsimp only
  obtain ⟨hacc, hlast⟩ | ⟨hacc, p, v, hses, hcmd, hv, hlast⟩ :=
    arrive_lastTs m.atReceiver hown (Node.completeReceive_core hn)
  · rw [hacc, hlast, Bool.or_false]
    exact hecho
  · rw [hacc, Bool.or_true, if_pos rfl]
    refine ⟨_, hlast, ?_⟩
    have hp : x.Stamp p.ts := h.data p (hgenuine (p, m.atReceiver) hses rfl hcmd)
    cases hx : x.accepted with
    | true =>
      rw [hx, if_pos rfl] at hecho
      obtain ⟨v', hv', hstamp⟩ := hecho
      obtain rfl := Option.some.inj (hv.symm.trans hv')
      exact Stamp.max hstamp hp
    | false =>
      -- the first packet that is accepted
      rw [hx, if_neg Bool.false_ne_true] at hecho
      rw [hecho v hv, Nat.zero_max]
      exact hp

theorem Wired.receiveAll {ts : Nat} {ws : List Completion} (h : Wired m x)
    (hown : x.receiver.core.Entries (Own (·.receiveQueue)))
    (hgenuine : ∀ a ∈ ws.map (·.arrival), ∀ s ∈ x.receiver.core.sessionOf a, s.2 = m.atReceiver →
      s.1.cmd = pktCmdData → s.1 ∈ x.data)
    (hs : ws.foldlM (receiveAtReceiver m ts) x = some x') : Wired m x' := by
  -- the registered peers and the packets on the network are the same for the whole poll
  refine (Runs.foldlM_invariant (P := fun y => Wired m y ∧ y.receiver.core.Entries (Own (·.receiveQueue)) ∧
    y.receiver.core.controller = x.receiver.core.controller ∧ y.data = x.data) hs ⟨h, hown, rfl, rfl⟩ ?_).1
  rintro w hw y y' ⟨hy, hyown, hpeers, hdata⟩ hstep
  have hwired : Wired m y' := by
    refine hy.receive hyown (fun s hses => ?_) hstep
    rw [sessionOf_congr hpeers] at hses
    rw [hdata]
    exact hgenuine w.arrival (List.mem_map_of_mem hw) s hses
  obtain ⟨n, hn, rfl⟩ := Option.map_eq_some_iff.1 hstep
  have hcore := Node.completeReceive_core hn
  exact ⟨hwired, entries_step entryRule_ownReceive hyown hcore, (arrive_controller hcore).trans hpeers, hdata⟩

theorem Wired.stepReceiver {e : Node.Event} (h : Wired m x) (hheaded : Headed x) (hheaded' : Headed x')
    (hok : ok m x (.atReceiver e)) (hs : step m x (.atReceiver e) = some x') : Wired m x' := by
  have hlast : ∀ n acks, (∀ ts ws, e ≠ .pollReceives ts ws) → x.receiver.step e = some n →
      Echo m { x with receiver := n, acks := acks } :=
    fun n acks hno hn => h.echo.of_lastTs (Node.step_lastTs hok.1 hn hno)
  cases e with
  | sendAcks order =>
    obtain ⟨⟨ret, n⟩, hr, rfl⟩ := Option.map_eq_some_iff.1 hs
    have hecho := hlast n (x.acks ++ ((postedAck x.receiver n m.atReceiver).map (·, x.accepted)).toList)
      (fun _ _ he => by cases he) (by rw [Node.step, hr]; rfl)
    refine h.receiver hecho fun a ha => ?_
    rcases List.mem_append.1 ha with ha | ha
    · exact h.acks a ha
    · obtain ⟨p, hp, rfl⟩ := Option.map_eq_some_iff.1 (Option.mem_toList.1 ha)
      exact hecho.ack (postedAck_ts hheaded'.acks hheaded'.own hr hp)
  | pollReceives ts ws => exact h.receiveAll hheaded.own hok.2 hs
  | pollSends rs =>
    cases hs
    exact h.receiver (hlast _ x.acks (fun _ _ he => by cases he) rfl) h.acks
  | _ =>
    obtain ⟨n, hn, rfl⟩ := Option.map_eq_some_iff.1 hs
    exact h.receiver (hlast n x.acks (fun _ _ he => by cases he) hn) h.acks

/-! ## Runs -/

theorem headed_start {cfg cfg' : Config} {taken taken' : Nat → Bool} {n n' : Node}
    (h : Node.construct cfg taken = some n) (h' : Node.construct cfg' taken' = some n') : Headed (start n n' m) := by
  obtain ⟨c, hc, hsub⟩ := Option.bind_eq_some_iff.1 h
  obtain ⟨c', hc', hsub'⟩ := Option.bind_eq_some_iff.1 h'
  obtain ⟨r, -, rfl⟩ := Option.map_eq_some_iff.1 hc
  obtain ⟨r', -, rfl⟩ := Option.map_eq_some_iff.1 hc'
  have hempty : ∀ sid e, n'.core.activeSessionMap.lookup sid ≠ some e := by
    intro sid e he
    rw [Node.submitHandles_core hsub'] at he
    simp at he
  refine ⟨?_, fun sid e he => absurd he (hempty sid e), fun sid e he => absurd he (hempty sid e)⟩
  show Queues _ n.core.packetManager.sendQueue
  rw [Node.submitHandles_core hsub]
  exact .none

theorem wired_start {cfg' : Config} {taken' : Nat → Bool} {n n' : Node} (h' : Node.construct cfg' taken' = some n') :
    Wired m (start n n' m) := by
  obtain ⟨c', hc', hsub'⟩ := Option.bind_eq_some_iff.1 h'
  obtain ⟨r', -, rfl⟩ := Option.map_eq_some_iff.1 hc'
  refine ⟨le_refl _, fun t ht => (List.not_mem_nil ht).elim, fun p hp => (List.not_mem_nil hp).elim, ?_,
    fun a ha => (List.not_mem_nil ha).elim⟩
  intro v hv
  unfold lastTs at hv
  rw [show (start n n' m).receiver.core = _ from Node.submitHandles_core hsub'] at hv
  cases hv

theorem wired_step {ev : Event} (h : Headed x ∧ Wired m x) (hok : ok m x ev) (hs : step m x ev = some x') :
    Headed x' ∧ Wired m x' := by
  have hheaded := h.1.step hok hs
  refine ⟨hheaded, ?_⟩
  cases ev with
  | atSender e => exact h.2.stepSender hheaded hok hs
  | atReceiver e => exact h.2.stepReceiver h.1 hheaded hok hs

/-- A sample is the time since a DATA packet was sent. -/
def Real (x : Exchange) (s : Nat × Nat) : Prop := ∃ t ∈ x.sentAt, t ≤ s.1 ∧ s.2 = s.1 - t

theorem Wired.real_of_stamp (h : Wired m x) {ts v : Nat} (hts : x.clock ≤ ts) (hlt : ts < m.startTs + 2 ^ 48)
    (hv : x.Stamp v) : x.Real (ts, rttOf ts v) := by
  obtain ⟨t, ht, rfl⟩ := hv
  obtain ⟨hstart, hclock⟩ := h.times t ht
  have hle : t ≤ ts := hclock.trans hts
  exact ⟨t, ht, hle, rttOf_stamp hle (by omega)⟩

/-- An ACK that was built before the queue accepted anything gives a real sample only if a packet happened to be sent
at a multiple of 2^48. -/
theorem Wired.real_iff_of_unaccepted (h : Wired m x) {ts : Nat} (hts : x.clock ≤ ts) (hlt : ts < m.startTs + 2 ^ 48)
    {p : Packet} (hp : (p, false) ∈ x.acks) : x.Real (ts, rttOf ts p.ts) ↔ ∃ t ∈ x.sentAt, t % 2 ^ 48 = 0 := by
  have hzero : p.ts = 0 := h.acks (p, false) hp
  rw [hzero]
  constructor
  · rintro ⟨t, ht, hle, hrtt⟩
    refine ⟨t, ht, ?_⟩
    obtain ⟨hstart, -⟩ := h.times t ht
    simp only [rttOf, sub64] at hrtt hle
    omega
  · rintro ⟨t, ht, hmod⟩
    exact h.real_of_stamp hts hlt ⟨t, ht, hmod.symm⟩

/-- The samples of a poll whose ACKs were built after the queue had accepted a packet. -/
theorem Wired.realSamples {ts : Nat} {ws : List Completion} (h : Wired m x) (hts : x.clock ≤ ts)
    (hlt : ts < m.startTs + 2 ^ 48)
    (hecho : ∀ a ∈ ws.map (·.arrival), ∀ s ∈ x.sender.core.sessionOf a, s.2 = m.atSender → s.1.cmd ≠ pktCmdData →
      (s.1, true) ∈ x.acks)
    (hreal : ∀ s ∈ x.samples, x.Real s) (hs : ws.foldlM (receiveAtSender m ts) x = some x') :
    ∀ s ∈ x'.samples, x'.Real s := by
  refine (Runs.foldlM_invariant (P := fun y => (Wired m y ∧ ∀ s ∈ y.samples, y.Real s) ∧
    y.sender.core.controller = x.sender.core.controller ∧ y.clock = x.clock ∧ y.acks = x.acks) hs
    ⟨⟨h, hreal⟩, rfl, rfl, rfl⟩ ?_).1.2
  rintro w hw y y' ⟨⟨hy, hyreal⟩, hpeers, hclock, hacks⟩ hstep
  obtain ⟨n, hn, rfl⟩ := Option.map_eq_some_iff.1 hstep
  have hcore := Node.completeReceive_core hn
  refine ⟨⟨hy.quiet (le_refl _) _, fun s hs => ?_⟩, (arrive_controller hcore).trans hpeers, hclock, hacks⟩
  rcases List.mem_append.1 hs with hs | hs
  · exact hyreal s hs
  · -- the sample of this completion
    obtain ⟨r, hr, rfl⟩ := Option.map_eq_some_iff.1 (Option.mem_toList.1 hs)
    obtain ⟨hr, hcond⟩ := Option.filter_eq_some_iff.1 hr
    obtain ⟨hsid, hcmd⟩ := of_decide_eq_true hcond
    rw [sessionOf_congr hpeers] at hr
    have hack := hy.acks (r.1, true) (hacks ▸ hecho w.arrival (List.mem_map_of_mem hw) r hr hsid hcmd)
    exact hy.real_of_stamp (hclock.le.trans hts) hlt hack

/-- A sample is what `updateRTO` is called with. -/
theorem sample_passed {c c' : Core} {sid ts : Nat} {a : Arrival} {s : Nat × Nat} (hs : sample c sid ts a = some s)
    (h : processReceivedPacket c ts a = some c') :
    c'.recvSrtt = (updateRTO kMinRTO kMaxRTO c s.2).recvSrtt ∧
      c'.recvRttval = (updateRTO kMinRTO kMaxRTO c s.2).recvRttval ∧
      c'.recvRto = (updateRTO kMinRTO kMaxRTO c s.2).recvRto := by
  obtain ⟨⟨p, k⟩, hr, rfl⟩ := Option.map_eq_some_iff.1 hs
  obtain ⟨hr, hcond⟩ := Option.filter_eq_some_iff.1 hr
  obtain ⟨e, -, ⟨hcmd, -⟩ | ⟨-, ptr, q, -, -, hack⟩⟩ := processReceivedPacket_of_session hr h
  · exact absurd hcmd (of_decide_eq_true hcond).2
  · unfold receiveAck at hack
    obtain ⟨e', -, rfl⟩ := Option.map_eq_some_iff.1 hack
    exact ⟨rfl, rfl, rfl⟩

theorem Echoing.ok {ev : Event} (h : Echoing m x ev) : Exchange.ok m x ev := by
  cases ev with
  | atSender e => exact h.1
  | atReceiver e => exact h

theorem realSamples_step {ev : Event} (h : Wired m x) (hreal : ∀ s ∈ x.samples, x.Real s) (hok : Echoing m x ev)
    (hs : step m x ev = some x') : ∀ s ∈ x'.samples, x'.Real s := by
  cases ev with
  | atSender e =>
    cases e with
    | sendData ts order draw =>
      obtain ⟨r, -, rfl⟩ := Option.map_eq_some_iff.1 hs
      intro s hmem
      obtain ⟨t, ht, hle, hrtt⟩ := hreal s hmem
      exact ⟨t, List.mem_append_left _ ht, hle, hrtt⟩
    | pollReceives ts ws =>
      obtain ⟨⟨-, htime, -⟩, hecho⟩ := hok
      obtain ⟨hts, hlt⟩ := htime ts rfl
      exact (h.quiet (n := x.sender) hts x.samples).realSamples (le_refl ts) hlt hecho hreal hs
    | pollSends rs =>
      cases hs
      exact hreal
    | _ =>
      obtain ⟨n, -, rfl⟩ := Option.map_eq_some_iff.1 hs
      exact hreal
  | atReceiver e =>
    cases e with
    | pollReceives ts ws =>
      obtain ⟨-, hx'⟩ := receiveAllAtReceiver hs
      rw [hx']
      exact hreal
    | pollSends rs =>
      cases hs
      exact hreal
    | _ =>
      obtain ⟨n, -, rfl⟩ := Option.map_eq_some_iff.1 hs
      exact hreal

/-- When every ACK the sender processes was built after the receive queue had accepted a packet, every value passed to
`updateRTO` is the time that has passed since a DATA packet of the session was sent. -/
theorem samples_real {m : Session} {cfg cfg' : Config} {taken taken' : Nat → Bool} {n n' : Node} {evs : List Event}
    {x : Exchange} (h : Node.construct cfg taken = some n) (h' : Node.construct cfg' taken' = some n')
    (hrun : Runs.Run (step m) (Echoing m) (start n n' m) evs x) :
    ∀ s ∈ x.samples, ∃ t ∈ x.sentAt, t ≤ s.1 ∧ s.2 = s.1 - t := by
  have hinv : (Headed x ∧ Wired m x) ∧ ∀ s ∈ x.samples, x.Real s := by
    refine hrun.invariant (P := fun x => (Headed x ∧ Wired m x) ∧ ∀ s ∈ x.samples, x.Real s)
      ⟨⟨headed_start h h', wired_start h'⟩, fun s hs => (List.not_mem_nil hs).elim⟩ ?_
    intro y ev y' hy hok hs
    exact ⟨wired_step hy.1 hok.ok hs, realSamples_step hy.1.2 hy.2 hok hs⟩
  exact hinv.2

/-! ## Data before and after the `receive` -/

/-- The bytes of a packet from a peer with one queue pair. -/
def arrivalOf (gid : BitVec 128) (p : Packet) : Arrival :=
  ⟨gid, 1, some (p.session + 2 ^ 6 * p.cmd + 2 ^ 8 * p.sn), List.replicate grhSize 0 ++ (Bytes.toLe 2 p.wnd ++
    (Bytes.toLe 2 p.ts ++ (Bytes.toLe 4 (p.ts / 2 ^ 16) ++ p.payload)))⟩

/-- The first DATA packet of two bytes, sent at `ts`. -/
def firstData (ts : Nat) : Packet := ⟨0, 0, 64, 0, ts % 2 ^ 48, false, [0, 0]⟩

def ackOf (sn ts : Nat) : Packet := ⟨0, 1, 8, sn, ts, false, []⟩

/-- Both sides connect, the receiver makes a call, the sender sends two bytes at `ts`, they arrive, and are
acknowledged with `ack` 100 microseconds later. -/
def conversation (call : Context.Event) (ts : Nat) (ack : Packet) : List Event :=
  [.atSender (.call (.setupConnection "b" 7 [1] [1] true)), .atReceiver (.call (.setupConnection "a" 9 [1] [1] true)),
    .atReceiver (.call call), .atSender (.call (.send "b" [⟨100, 2⟩])), .atSender (.sendData ts [0] fun _ _ => ⟨0, 4⟩),
    .atReceiver (.pollReceives 0 [⟨(0, 511), arrivalOf 9 (firstData ts), true⟩]), .atReceiver (.sendAcks [(0, ⟨0, 1⟩)]),
    .atSender (.pollReceives (ts + 100) [⟨(0, 511), arrivalOf 7 ack, true⟩])]

/-- Two nodes with small queues. -/
def smallPair (m : Session) : Option Exchange :=
  (Node.construct (smallConfig 512) fun _ => true).map fun n => start n n m

theorem smallPair_some (h : smallPair m = some x) :
    ∃ n, Node.construct (smallConfig 512) (fun _ => true) = some n ∧ x = start n n m := by
  obtain ⟨n, hn, rfl⟩ := Option.map_eq_some_iff.1 h
  exact ⟨n, hn, rfl⟩

/-- The buffer is posted first, and the clock passes a multiple of 2^48: the sample is the 100 microseconds. -/
theorem sample_across_wrap :
    ∃ n x, Node.construct (smallConfig 512) (fun _ => true) = some n ∧
      Runs.Run (step ⟨0, 0, 2 ^ 50 - 50⟩) (Echoing ⟨0, 0, 2 ^ 50 - 50⟩) (start n n ⟨0, 0, 2 ^ 50 - 50⟩)
        (conversation (.receive "a" [⟨100, 2⟩]) (2 ^ 50 - 50) (ackOf 1 (2 ^ 48 - 50))) x ∧
      x.samples = [(2 ^ 50 + 50, 100)] ∧ ∃ t ∈ x.sentAt, t ≤ 2 ^ 50 + 50 ∧ 100 = 2 ^ 50 + 50 - t := by
  obtain ⟨x0, x, h0, hrun, ht⟩ := Runs.exists_run_of_start (step ⟨0, 0, 2 ^ 50 - 50⟩) (Echoing ⟨0, 0, 2 ^ 50 - 50⟩)
    (smallPair ⟨0, 0, 2 ^ 50 - 50⟩) (conversation (.receive "a" [⟨100, 2⟩]) (2 ^ 50 - 50) (ackOf 1 (2 ^ 48 - 50)))
    (fun x => x.samples == [(2 ^ 50 + 50, 100)]) (by decide +kernel)
  obtain ⟨n, hn, rfl⟩ := smallPair_some h0
  have hsamples : x.samples = [(2 ^ 50 + 50, 100)] := beq_iff_eq.1 ht
  refine ⟨n, x, hn, hrun, hsamples, samples_real hn hn hrun (2 ^ 50 + 50, 100) ?_⟩
  rw [hsamples]
  exact List.mem_singleton_self _

/-- The data is there before the receiver posts a buffer, and is acknowledged all the same: the sample is the clock, not
the 100 microseconds since the only packet was sent. -/
theorem sample_of_empty_echo :
    ∃ n x, Node.construct (smallConfig 512) (fun _ => true) = some n ∧
      Runs.Run (step ⟨0, 0, 1700000000000000⟩) (ok ⟨0, 0, 1700000000000000⟩) (start n n ⟨0, 0, 1700000000000000⟩)
        (conversation (.send "a" [⟨100, 2⟩]) 1700000000000000 (ackOf 0 0)) x ∧
      x.samples = [(1700000000000100, 1700000000000100 % 2 ^ 48)] ∧
      ¬∃ t ∈ x.sentAt, 1700000000000100 % 2 ^ 48 = 1700000000000100 - t := by
  obtain ⟨x0, x, h0, hrun, ht⟩ := Runs.exists_run_of_start (step ⟨0, 0, 1700000000000000⟩) (ok ⟨0, 0, 1700000000000000⟩)
    (smallPair ⟨0, 0, 1700000000000000⟩) (conversation (.send "a" [⟨100, 2⟩]) 1700000000000000 (ackOf 0 0))
    (fun x => x.samples == [(1700000000000100, 1700000000000100 % 2 ^ 48)] && x.sentAt == [1700000000000000])
    (by decide +kernel)
  obtain ⟨n, hn, rfl⟩ := smallPair_some h0
  obtain ⟨hsamples, hsent⟩ := Bool.and_eq_true_iff.1 ht
  rw [beq_iff_eq] at hsamples hsent
  refine ⟨n, x, hn, hrun, hsamples, ?_⟩
  rw [hsent]
  decide

end Exchange

end RapidTransfer
