/-
The unicast context with the objects its work requests are made of: the cache the `Request` objects come
from and go back to, and the packets posted for receiving. `Node` adds them to the state of `Core`, and
its functions are those of the context with the calls of `allocate`, `deallocate` and
`postReceiveRequest` where the source makes them. `sendDataPackets` also returns, for each session, a
ledger of the packets it stamped, those it took a request for, and those whose request went to a queue
pair.

`core_reachable` is the connection with the context below: what a node does to its core is a run of that
context, so everything proved there holds here.
-/
import RapidTransfer.Context.Unicast

namespace RapidTransfer

open RapidTransfer.Core RapidTransfer.Context

/-! ## Requests -/

/-- `RequestCache::kLazyDeleteRequestCapacity` -/
def kLazyDeleteRequestCapacity : Nat := 4096

/-- `RequestCache`: the requests between `tail_` and `head_` wait for reuse. -/
structure RequestCache where
  head : Nat
  tail : Nat
  allocated : Nat
  freed : Nat
  tailLe : tail ≤ head
  headLe : head ≤ tail + kLazyDeleteRequestCapacity

namespace RequestCache

def construct : RequestCache := ⟨0, 0, 0, 0, le_refl 0, Nat.zero_le _⟩

def allocate (s : RequestCache) : RequestCache :=
  if h : s.head - s.tail = 0 then { s with allocated := s.allocated + 1 }
  else { s with tail := s.tail + 1, tailLe := by omega, headLe := by have := s.headLe; omega }

def deallocate (s : RequestCache) : RequestCache :=
  if h : s.head - s.tail = kLazyDeleteRequestCapacity then { s with freed := s.freed + 1 }
  else { s with head := s.head + 1, tailLe := s.tailLe.trans (Nat.le_succ _), headLe := by have := s.headLe; omega }

/-- The requests waiting for reuse. -/
def cached (s : RequestCache) : Nat := s.head - s.tail

/-- The requests in use: made, not deleted and not waiting. -/
def inUse (s : RequestCache) : Int := s.allocated - s.freed - s.cached

@[simp] theorem inUse_construct : construct.inUse = 0 := rfl

@[simp] theorem inUse_allocate (s : RequestCache) : s.allocate.inUse = s.inUse + 1 := by
  have := s.tailLe
  unfold inUse cached allocate
  split
  · push_cast; omega
  · simp only; omega

@[simp] theorem inUse_deallocate (s : RequestCache) : s.deallocate.inUse = s.inUse - 1 := by
  have := s.tailLe
  unfold inUse cached deallocate
  split
  · push_cast; omega
  · simp only; omega

end RequestCache

/-! ## Receive buffers -/

/-- The receive side of the endpoint store, with `recv_handles_qp_index_map_`. A work request is the queue
pair it waits on and the packet it fills. -/
structure Receives where
  qpIndexMap : Nat → Option Nat
  wrDepth : Nat → Int
  outstanding : List (Nat × Nat)

namespace Receives

def construct : Receives := { qpIndexMap := fun _ => none, wrDepth := fun _ => 0, outstanding := [] }

/-- `postReceiveRequest` of one request; `accepted` tells whether `ibv_post_recv` takes it. -/
def postReceiveRequest (r : Receives) (maxWrDepth : Int) (packet qpIndex : Nat) (accepted : Bool) :
    Option (Int × Receives) :=
  let wrCount := min (maxWrDepth - r.wrDepth qpIndex) 1
  if wrCount = 0 then some (0, r)
  else if wrCount < 0 then none
  else if !accepted then some (wrCount, r)
  else
    some (wrCount,
      { r with
        wrDepth := Function.update r.wrDepth qpIndex (r.wrDepth qpIndex + 1)
        outstanding := r.outstanding ++ [(qpIndex, packet)] })

/-- A completion is polled: the request's depth counter goes down. -/
def complete (r : Receives) (wr : Nat × Nat) : Receives :=
  { r with
    outstanding := r.outstanding.erase wr
    wrDepth := Function.update r.wrDepth wr.1 (r.wrDepth wr.1 - 1) }

end Receives

structure Node where
  core : Core
  cache : RequestCache
  receives : Receives

/-- A receive completion: its work request, what arrived in the packet, and whether the verb takes the
packet when it is posted again. -/
structure Completion where
  wr : Nat × Nat
  arrival : Arrival
  accepted : Bool

namespace Node

/-- `submitNormalRecvWR`: reading the map of a packet it does not have stores a zero there. -/
def submitNormalRecvWR (n : Node) (packet : Nat) (accepted : Bool) : Option (Int × Node) :=
  let index := (n.receives.qpIndexMap packet).getD 0
  let receives := { n.receives with qpIndexMap := Function.update n.receives.qpIndexMap packet (some index) }
  (receives.postReceiveRequest n.core.endpointStore.maxWrDepth packet index accepted).map fun r =>
    (r.1, { n with cache := n.cache.allocate, receives := r.2 })

/-- The loop of `construct` over the receive handles, from handle `i` on: a packet is submitted before
its queue pair is entered into the map. -/
def submitHandles (accepted : Nat → Bool) (i : Nat) : List PacketHandle → Node → Option Node
  | [], n => some n
  | h :: hs, n =>
    match h.packetBuf with
    | none => none
    | some packet =>
      match n.submitNormalRecvWR packet (accepted i) with
      | none => none
      | some (ret, n) =>
        if ret < 0 then none
        else
          let index := i % n.core.endpointStore.numQp
          submitHandles accepted (i + 1) hs
            { n with receives := { n.receives with
                qpIndexMap := Function.update n.receives.qpIndexMap packet (some index) } }

/-- `recv_handles_` -/
def receiveHandles (cfg : Config) : List PacketHandle :=
  ((PacketManager.allocateMany
    (PacketManager.construct cfg.raw cfg.mtuSize cfg.maxPackets cfg.queueCapacity).pool
    kNumReceiveHandles).map (·.1)).getD []

def construct (cfg : Config) (accepted : Nat → Bool) : Option Node :=
  (Context.start cfg).bind fun core =>
    submitHandles accepted 0 (receiveHandles cfg) ⟨core, .construct, .construct⟩

/-! ## Polling -/

/-- `processReceivedPacket`: a packet that cannot be deserialised returns before the last line. -/
def processReceivedPacket (n : Node) (currentTs : Nat) (w : Completion) : Option Node :=
  match w.arrival.packet with
  | none => some n
  | some _ =>
    (Context.processReceivedPacket n.core currentTs w.arrival).bind fun core =>
      (submitNormalRecvWR { n with core := core } w.wr.2 w.accepted).map (·.2)

/-- One iteration of `pollCompletedPackets(RECV_CQ)`. -/
def completeReceive (n : Node) (currentTs : Nat) (w : Completion) : Option Node :=
  (processReceivedPacket { n with receives := n.receives.complete w.wr } currentTs w).map fun n =>
    { n with cache := n.cache.deallocate }

def pollReceives (currentTs : Nat) : List Completion → Node → Option Node
  | [], n => some n
  | w :: ws, n => (n.completeReceive currentTs w).bind (pollReceives currentTs ws)

theorem pollReceives_eq_foldlM (currentTs : Nat) (ws : List Completion) (n : Node) :
    n.pollReceives currentTs ws = ws.foldlM (fun n w => n.completeReceive currentTs w) n := by
  induction ws generalizing n with
  | nil => rfl
  | cons w ws ih =>
    rw [pollReceives, List.foldlM_cons]
    exact Option.bind_congr fun m _ => ih m

/-- One iteration of `pollCompletedPackets(SEND_CQ)`. -/
def completeSend (n : Node) (r : Nat × Request) : Node :=
  { n with core := n.core.completeSend r, cache := n.cache.deallocate }

def pollSends (rs : List (Nat × Request)) (n : Node) : Node := rs.foldl completeSend n

/-! ## Acknowledgements -/

/-- The ACK of one session: the request is taken once the header is serialised. -/
def postAck (n : Node) (sid : Nat) (e : SessionInfo) (q : ReceiveQueue) (p : Post) : Option (Int × Node) :=
  let cache := if (ackHeader sid (ackWnd q) q e.ackHandle).serialize.isSome then n.cache.allocate else n.cache
  (Core.postAck ackWnd false n.core sid e q p).map fun r => (r.1, { n with core := r.2, cache := cache })

def sendAckPackets : List (Nat × Post) → Node → Option (Int × Node)
  | [], n => some (0, n)
  | (sid, p) :: rest, n =>
    match n.core.activeSessionMap.lookup sid with
    | none => none
    | some e =>
      match e.receiveQueue.bind n.core.packetManager.receiveQueue with
      | none => none
      | some q =>
        if owesAck e then
          match n.postAck sid e q p with
          | none => none
          | some (ret, n) => if ret ≠ 0 then some (ret, n) else sendAckPackets rest n
        else sendAckPackets rest n

end Node

/-! ## Data -/

/-- What one session of `sendDataPackets` did, by packet index: `held` are the packets whose requests are in
`request_list`. -/
structure Ledger where
  stamped : List Nat
  allocated : List Nat
  held : List Nat
  posted : List Nat
  deriving DecidableEq, Repr

/-- The first `taken` requests of the list go to a queue pair, and the list is cleared. -/
def Ledger.post (g : Ledger) (taken : Nat) : Ledger := { g with held := [], posted := g.posted ++ g.held.take taken }

/-- The locals of `sendDataPackets` with the request cache. -/
structure Posting where
  sending : Sending
  cache : RequestCache
  ledger : Ledger

namespace Posting

def flush (x : Posting) (ep : Endpoint) (draw : Nat → Post) : Option Posting :=
  (x.sending.flush ep draw).map fun l =>
    { x with
      sending := l
      ledger := x.ledger.post
        (l.core.endpointStore.outstanding.length - x.sending.core.endpointStore.outstanding.length) }

def sendIndex (currentTs : Nat) (draw : Nat → Post) (sid : Nat) (x : Posting) (curr : Nat) :
    Option (Bool × Posting) :=
  let l := x.sending.touch currentTs curr
  let x := { x with sending := l, ledger := { x.ledger with stamped := x.ledger.stamped ++ [curr] } }
  match (l.queue.ring.getMutableEntry curr).serialize with
  | none => some (false, x)
  | some _ =>
    let x := { x with
      cache := x.cache.allocate
      ledger := { x.ledger with allocated := x.ledger.allocated ++ [curr] } }
    match l.connect sid with
    | (none, l) => some (false, { x with sending := l })
    | (some ep, l) =>
      let x := { x with
        sending := { l with requestList := l.requestList ++ [⟨none⟩] }
        ledger := { x.ledger with held := x.ledger.held ++ [curr] } }
      if x.sending.requestList.length = kRequestBatchSize then (x.flush ep draw).map (true, ·) else some (true, x)

def sendIndices (currentTs : Nat) (draw : Nat → Post) (sid : Nat) : List Nat → Posting → Option (Bool × Posting)
  | [], x => some (true, x)
  | curr :: rest, x =>
    if sub64 currentTs (x.sending.queue.ring.getMutableEntry curr).ts < x.sending.core.recvRto then some (true, x)
    else
      match x.sendIndex currentTs draw sid curr with
      | none => none
      | some (false, x) => some (false, x)
      | some (true, x) => sendIndices currentTs draw sid rest x

def finish (draw : Nat → Post) (x : Posting) : Option Posting :=
  match x.sending.requestList, x.sending.endpoint with
  | [], _ => some x
  | _ :: _, none => none
  | _ :: _, some ep => x.flush ep draw

/-- The node a session of the loop leaves. -/
def store (x : Posting) (n : Node) (ptr : Nat) : Node := { n with core := x.sending.store ptr, cache := x.cache }

end Posting

namespace Node

def sendSession (currentTs : Nat) (draw : Nat → Post) (n : Node) (sid : Nat) : Option (Bool × Node × Ledger) :=
  match n.core.activeSessionMap.lookup sid with
  | none => none
  | some info =>
    if sub64 currentTs info.lastSendTs < n.core.recvRto * 2 / 3 then some (true, n, ⟨[], [], [], []⟩)
    else
      match info.sendQueue with
      | none => none
      | some ptr =>
        match n.core.packetManager.sendQueue ptr with
        | none => none
        | some q =>
          match Posting.sendIndices currentTs draw sid (sendRange q info)
              ⟨⟨n.core, info, q, none, [], 0, []⟩, n.cache, ⟨[], [], [], []⟩⟩ with
          | none => none
          | some (false, x) => some (false, x.store n ptr, x.ledger)
          | some (true, x) => (x.finish draw).map fun x => (true, x.store n ptr, x.ledger)

def sendDataPackets (currentTs : Nat) (draw : Nat → Nat → Post) :
    List Nat → Node → Option (Int × Node × List (Nat × Ledger))
  | [], n => some (0, n, [])
  | sid :: rest, n =>
    match sendSession currentTs (draw sid) n sid with
    | none => none
    | some (false, n, g) => some (-1, n, [(sid, g)])
    | some (true, n, g) => (sendDataPackets currentTs draw rest n).map fun r => (r.1, r.2.1, (sid, g) :: r.2.2)

/-! ## The state machine -/

/-- `kPollCount` -/
def kPollCount : Nat := 64

/-- A call of the API is an event of the context below. -/
inductive Event
  | call (e : Context.Event)
  | sendAcks (order : List (Nat × Post))
  | sendData (currentTs : Nat) (order : List Nat) (draw : Nat → Nat → Post)
  | pollReceives (currentTs : Nat) (ws : List Completion)
  | pollSends (rs : List (Nat × Request))

def isCall : Context.Event → Bool
  | .setupConnection .. => true
  | .send .. => true
  | .receive .. => true
  | .freeTask .. => true
  | _ => false

def step (n : Node) : Event → Option Node
  | .call e => (Context.step n.core e).map fun core => { n with core := core }
  | .sendAcks order => (n.sendAckPackets order).map (·.2)
  | .sendData ts order draw => (n.sendDataPackets ts draw order).map (·.2.1)
  | .pollReceives ts ws => n.pollReceives ts ws
  | .pollSends rs => some (n.pollSends rs)

/-- What the map and the NIC guarantee: the completions of a poll belong to different outstanding
requests, and a packet has a GRH and fits into its buffer. -/
def ok (n : Node) : Event → Prop
  | .call e => isCall e = true
  | .sendAcks order => (order.map (·.1)).Perm n.core.activeSessionMap.keys
  | .sendData _ order _ => order.Perm n.core.activeSessionMap.keys
  | .pollReceives _ ws => ws.length ≤ kPollCount ∧ (ws.map (·.wr)).Subperm n.receives.outstanding ∧
      ∀ w ∈ ws, grhSize ≤ w.arrival.bytes.length ∧ w.arrival.bytes.length ≤ n.core.packetManager.mtuSize
  | .pollSends rs => rs.length ≤ kPollCount ∧ rs.Subperm n.core.endpointStore.outstanding

instance (n : Node) : ∀ e, Decidable (ok n e)
  | .call _ => inferInstanceAs (Decidable (_ = _))
  | .sendAcks _ => inferInstanceAs (Decidable (List.Perm _ _))
  | .sendData _ _ _ => inferInstanceAs (Decidable (List.Perm _ _))
  | .pollReceives _ _ => inferInstanceAs (Decidable (_ ∧ _ ∧ _))
  | .pollSends _ => inferInstanceAs (Decidable (_ ∧ _))

/-- The states a node can be in. -/
def Reachable (cfg : Config) (accepted : Nat → Bool) (es : List Event) (n : Node) : Prop :=
  ∃ n0, construct cfg accepted = some n0 ∧ Runs.Run step ok n0 es n

end Node

/-! ## The context below -/

namespace Posting

variable {ts sid curr : Nat} {draw : Nat → Post}

theorem flush_sending (x : Posting) (ep : Endpoint) (draw : Nat → Post) :
    (x.flush ep draw).map (·.sending) = x.sending.flush ep draw := by
  unfold flush
  rw [Option.map_map]
  exact Option.map_id'

theorem sendIndex_sending (x : Posting) : (x.sendIndex ts draw sid curr).map (fun r => (r.1, r.2.sending)) =
    Context.sendIndex ts draw sid x.sending curr := by
  unfold sendIndex Context.sendIndex
  cases hser : ((x.sending.touch ts curr).queue.ring.getMutableEntry curr).serialize with
  | none => simp only [hser]; rfl
  | some s =>
    cases hcon : (x.sending.touch ts curr).connect sid with
    | mk ep l =>
      cases ep with
      | none => simp only [hser, hcon]; rfl
      | some ep =>
        simp only [hser, hcon]
        split
        · have hf := flush_sending ⟨{ l with requestList := l.requestList ++ [⟨none⟩] }, x.cache.allocate,
            ⟨x.ledger.stamped ++ [curr], x.ledger.allocated ++ [curr], x.ledger.held ++ [curr],
              x.ledger.posted⟩⟩ ep draw
          simp only at hf
          rw [← hf, Option.map_map, Option.map_map]
          rfl
        · rfl

theorem sendIndices_sending : ∀ (is : List Nat) (x : Posting),
    (x.sendIndices ts draw sid is).map (fun r => (r.1, r.2.sending)) = Context.sendIndices ts draw sid is x.sending
  | [], _ => rfl
  | i :: is, x => by
    unfold sendIndices Context.sendIndices
    split
    · rfl
    · rw [← sendIndex_sending]
      cases x.sendIndex ts draw sid i with
      | none => rfl
      | some r =>
        obtain ⟨b, x'⟩ := r
        cases b with
        | false => rfl
        | true => exact sendIndices_sending is x'

theorem finish_sending (x : Posting) : (x.finish draw).map (·.sending) = Context.finish draw x.sending := by
  unfold finish Context.finish
  cases x.sending.requestList with
  | nil => rfl
  | cons r rs =>
    cases x.sending.endpoint with
    | none => rfl
    | some ep => exact x.flush_sending ep draw

end Posting

namespace Node

theorem sendSession_core (ts : Nat) (draw : Nat → Post) (n : Node) (sid : Nat) :
    (sendSession ts draw n sid).map (fun r => (r.1, r.2.1.core)) =
      (Context.sendSession ts draw n.core sid).map fun r => (r.1, r.2.1) := by
  unfold sendSession Context.sendSession
  cases n.core.activeSessionMap.lookup sid with
  | none => rfl
  | some e =>
    simp only
    split
    · rfl
    · cases e.sendQueue with
      | none => rfl
      | some ptr =>
        cases hq : n.core.packetManager.sendQueue ptr with
        | none => simp only [hq]; rfl
        | some q =>
          have hloop : _ = Context.sendIndices ts draw sid (sendRange q e) ⟨n.core, e, q, none, [], 0, []⟩ :=
            Posting.sendIndices_sending (sendRange q e)
              ⟨⟨n.core, e, q, none, [], 0, []⟩, n.cache, ⟨[], [], [], []⟩⟩
          simp only [hq]
          rw [← hloop]
          cases Posting.sendIndices ts draw sid (sendRange q e)
            ⟨⟨n.core, e, q, none, [], 0, []⟩, n.cache, ⟨[], [], [], []⟩⟩ with
          | none => rfl
          | some r =>
            obtain ⟨b, x⟩ := r
            cases b with
            | false => rfl
            | true =>
              simp only [Option.map_some]
              rw [← Posting.finish_sending, Option.map_map, Option.map_map, Option.map_map]
              rfl

theorem sendDataPackets_core (ts : Nat) (draw : Nat → Nat → Post) : ∀ (order : List Nat) (n : Node),
    (sendDataPackets ts draw order n).map (fun r => (r.1, r.2.1.core)) =
      (Context.sendDataPackets ts draw order n.core).map fun r => (r.1, r.2.1)
  | [], _ => rfl
  | sid :: rest, n => by
    have hses := sendSession_core ts (draw sid) n sid
    unfold sendDataPackets Context.sendDataPackets
    cases hx : sendSession ts (draw sid) n sid with
    | none =>
      rw [hx] at hses
      cases hy : Context.sendSession ts (draw sid) n.core sid with
      | none => rfl
      | some r => rw [hy] at hses; cases hses
    | some r =>
      rw [hx] at hses
      cases hy : Context.sendSession ts (draw sid) n.core sid with
      | none => rw [hy] at hses; cases hses
      | some r' =>
        obtain ⟨b, n', g⟩ := r
        obtain ⟨b', c', resent⟩ := r'
        rw [hy] at hses
        cases hses
        cases b with
        | false => rfl
        | true =>
          simp only [Option.map_map]
          exact sendDataPackets_core ts draw rest n'

theorem sendAckPackets_core : ∀ (order : List (Nat × Post)) (n : Node),
    (sendAckPackets order n).map (fun r => (r.1, r.2.core)) = Context.sendAckPackets order n.core
  | [], _ => rfl
  | (sid, p) :: rest, n => by
    have ih := fun m => sendAckPackets_core rest m
    unfold Context.sendAckPackets at ih ⊢
    unfold sendAckPackets sendAcks
    cases n.core.activeSessionMap.lookup sid with
    | none => rfl
    | some e =>
      simp only
      cases e.receiveQueue.bind n.core.packetManager.receiveQueue with
      | none => rfl
      | some q =>
        simp only
        split
        · unfold postAck
          cases Core.postAck ackWnd false n.core sid e q p with
          | none => rfl
          | some r =>
            simp only [Option.map_some]
            split
            · rfl
            · exact ih _
        · exact ih n

variable {n n' : Node}

theorem sendDataPackets_some {ts : Nat} {draw : Nat → Nat → Post} {order : List Nat} {ret : Int}
    {log : List (Nat × Ledger)} (h : n.sendDataPackets ts draw order = some (ret, n', log)) :
    ∃ resent, Context.sendDataPackets ts draw order n.core = some (ret, n'.core, resent) := by
  have hcore := sendDataPackets_core ts draw order n
  rw [h] at hcore
  obtain ⟨⟨ret', c', resent⟩, hc, hx⟩ := Option.map_eq_some_iff.1 hcore.symm
  cases hx
  exact ⟨resent, hc⟩

theorem sendAckPackets_some {order : List (Nat × Post)} {ret : Int} (h : n.sendAckPackets order = some (ret, n')) :
    Context.sendAckPackets order n.core = some (ret, n'.core) := by
  rw [← sendAckPackets_core, h]
  rfl

/-- A submission takes a request and leaves the core alone. -/
theorem submitNormalRecvWR_some {packet : Nat} {accepted : Bool} {ret : Int}
    (h : n.submitNormalRecvWR packet accepted = some (ret, n')) : n'.core = n.core ∧ n'.cache = n.cache.allocate := by
  obtain ⟨r, -, hr⟩ := Option.map_eq_some_iff.1 h
  cases hr
  exact ⟨rfl, rfl⟩

theorem completeReceive_core {ts : Nat} {w : Completion} (h : n.completeReceive ts w = some n') :
    Context.step n.core (.arrive ts w.arrival) = some n'.core := by
  obtain ⟨m, hm, rfl⟩ := Option.map_eq_some_iff.1 h
  unfold processReceivedPacket at hm
  split at hm
  · rename_i hp
    cases hm
    simp only [Context.step, Context.processReceivedPacket, hp]
  · obtain ⟨core, hc, hsub⟩ := Option.bind_eq_some_iff.1 hm
    obtain ⟨⟨ret, m'⟩, hr, rfl⟩ := Option.map_eq_some_iff.1 hsub
    rw [(submitNormalRecvWR_some hr).1]
    exact hc

theorem pollReceives_core {ts : Nat} : ∀ {ws : List Completion} {n n' : Node}, n.pollReceives ts ws = some n' →
    ∃ es, Runs.Run Context.step Context.ok n.core es n'.core
  | [], n, n', h => by cases h; exact ⟨[], .nil⟩
  | w :: ws, n, n', h => by
    obtain ⟨m, hm, hrest⟩ := Option.bind_eq_some_iff.1 h
    obtain ⟨es, hes⟩ := pollReceives_core hrest
    have hok : Context.ok n.core (.arrive ts w.arrival) := trivial
    exact ⟨_, .cons hok (completeReceive_core hm) hes⟩

theorem completeSend_outstanding (c : Core) (r : Nat × Request) :
    (c.completeSend r).endpointStore = c.endpointStore.complete r := by
  obtain h | ⟨sid, e, -, -, -, h⟩ := completeSend_cases c r
  · rw [h]
  · rw [h]; rfl

theorem outstanding_completeSend (n : Node) (r : Nat × Request) :
    (n.completeSend r).core.endpointStore.outstanding = n.core.endpointStore.outstanding.erase r := by
  unfold completeSend
  rw [completeSend_outstanding]
  rfl

/-- After the first completion of a poll the others are still of outstanding requests. -/
theorem subperm_completeSend {r : Nat × Request} {rs : List (Nat × Request)} {n : Node}
    (h : (r :: rs).Subperm n.core.endpointStore.outstanding) :
    rs.Subperm (n.completeSend r).core.endpointStore.outstanding := by
  have he := h.erase r
  rw [List.erase_cons_head] at he
  rw [outstanding_completeSend]
  exact he

theorem pollSends_core : ∀ {rs : List (Nat × Request)} {n : Node}, rs.Subperm n.core.endpointStore.outstanding →
    ∃ es, Runs.Run Context.step Context.ok n.core es (n.pollSends rs).core
  | [], n, _ => ⟨[], .nil⟩
  | r :: rs, n, h => by
    obtain ⟨es, hes⟩ := pollSends_core (subperm_completeSend h)
    have hok : Context.ok n.core (.sent r) := h.subset List.mem_cons_self
    exact ⟨_, .cons hok rfl hes⟩

/-- What an event does to the core is a run of the context below. -/
theorem step_core {e : Event} (hok : ok n e) (hs : step n e = some n') :
    ∃ es, Runs.Run Context.step Context.ok n.core es n'.core := by
  have one : ∀ {f : Context.Event}, Context.ok n.core f → Context.step n.core f = some n'.core →
      ∃ es, Runs.Run Context.step Context.ok n.core es n'.core :=
    fun {f} hf hstep => ⟨[f], .cons hf hstep .nil⟩
  cases e with
  | call f =>
    obtain ⟨core, hc, rfl⟩ := Option.map_eq_some_iff.1 hs
    refine one ?_ hc
    cases f with
    | sendAcks => cases hok
    | sendData => cases hok
    | arrive => cases hok
    | sent => cases hok
    | _ => trivial
  | sendAcks order =>
    obtain ⟨⟨ret, m⟩, hm, rfl⟩ := Option.map_eq_some_iff.1 hs
    refine one (f := .sendAcks order) hok ?_
    simp only [Context.step, sendAckPackets_some hm, Option.map_some]
  | sendData ts order draw =>
    obtain ⟨⟨ret, m, log⟩, hm, rfl⟩ := Option.map_eq_some_iff.1 hs
    obtain ⟨resent, hc⟩ := sendDataPackets_some hm
    refine one (f := .sendData ts order draw) hok ?_
    simp only [Context.step, hc, Option.map_some]
  | pollReceives ts ws => exact pollReceives_core hs
  | pollSends rs =>
    cases hs
    exact pollSends_core hok.2

/-- `construct` of the node is that of the context, with the packets submitted. -/
theorem submitHandles_core {accepted : Nat → Bool} : ∀ {hs : List PacketHandle} {i : Nat} {n n' : Node},
    submitHandles accepted i hs n = some n' → n'.core = n.core
  | [], i, n, n', h => by cases h; rfl
  | hd :: hs, i, n, n', h => by
    unfold submitHandles at h
    split at h
    · cases h
    · split at h
      · cases h
      · rename_i ret m hm
        split at h
        · cases h
        · exact (submitHandles_core h).trans (submitNormalRecvWR_some hm).1

/-- The core of a reachable node is a reachable context. -/
theorem core_reachable {cfg : Config} {accepted : Nat → Bool} {es : List Event} (h : Reachable cfg accepted es n) :
    ∃ fs, Context.Reachable cfg fs n.core := by
  obtain ⟨n0, h0, hrun⟩ := h
  obtain ⟨c0, hc0, hsub⟩ := Option.bind_eq_some_iff.1 h0
  obtain ⟨fs, hfs⟩ := hrun.refine (f := Node.core) fun m e m' hok hs => step_core hok hs
  rw [submitHandles_core hsub] at hfs
  exact ⟨fs, c0, hc0, hfs⟩

end Node

end RapidTransfer
