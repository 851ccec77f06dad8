/-
The unicast context (`context.cpp`) as a state machine. An event is a call of the API, one of the
phases of `runStep`, or a completion the NIC reports; `step` is what it does to the state. What the
source leaves open comes with the event: the order in which the session map is iterated, the draws of
the posts, and the clock.
-/
import RapidTransfer.Context.Frame
import RapidTransfer.Lib.Runs

namespace RapidTransfer.Context

open RapidTransfer.Core

def kResendValue : Nat := 2
def kDefaultRTO : Nat := 4096
def kMinRTO : Nat := 128
def kMaxRTO : Nat := 8196

/-! ## The API -/

def send (c : Core) (peerName : String) (bufs : List Buffer) : Option (Int × Core) :=
  match c.controller.findSession peerName 0 with
  | none => some (-1, c)
  | some sid =>
    match c.openSession sid with
    | none => none
    | some (ret, c) => if ret ≠ 0 then some (ret, c) else c.pushSend sid bufs

def receive (c : Core) (peerName : String) (bufs : List Buffer) : Option (Int × Core) :=
  match c.controller.findSession peerName 0 with
  | none => some (-1, c)
  | some sid =>
    match c.openSession sid with
    | none => none
    | some (ret, c) => if ret ≠ 0 then some (ret, c) else c.pushReceive sid bufs

/-- `getStatus`, `none` where a task's queue pointer is dangling. -/
def getStatus (c : Core) (taskId : Nat) : Option Status :=
  match c.taskMap taskId with
  | none => some .unknown
  | some t =>
    if t.isSend then (c.packetManager.sendQueue t.queue).map fun q => statusOf t.lastSn q.getAckSN q.getNextSN
    else (c.packetManager.receiveQueue t.queue).map fun q => statusOf t.lastSn q.getAckSN q.getNextSN

/-! ## Sending -/

/-- The reaction to a retransmission. -/
def backoff (mtuSize : Nat) (e : SessionInfo) : SessionInfo :=
  let ssthresh := max kMinSSThreshValue (e.cwnd / 2)
  { e with ssthresh := ssthresh, cwnd := (ssthresh + kResendValue) % 2 ^ 32, incr := mtuSize }

/-- The locals of `sendDataPackets` for one session: `info` is the loop's copy of the map entry. -/
structure Sending where
  core : Core
  info : SessionInfo
  queue : SendQueue
  endpoint : Option Endpoint
  requestList : List Request
  posts : Nat
  resent : List Nat

namespace Sending

/-- `send_queue.setWndSize` after a backoff, which is counted. -/
def retransmit (l : Sending) (curr : Nat) : Sending :=
  let info := backoff l.core.mtuSize l.info
  { l with info := info, queue := l.queue.setWndSize info.cwnd, resent := l.resent ++ [curr] }

def stamp (l : Sending) (currentTs curr : Nat) : Sending :=
  { l with
    info := { l.info with lastSendTs := currentTs }
    queue := { l.queue with ring := l.queue.ring.setTs curr currentTs } }

/-- A packet that is old enough: a retransmission is reacted to, and the time is set. -/
def touch (l : Sending) (currentTs curr : Nat) : Sending :=
  (if (l.queue.ring.getMutableEntry curr).ts ≠ 0 then l.retransmit curr else l).stamp currentTs curr

/-- The endpoint is looked up with the first packet. -/
def connect (l : Sending) (sid : Nat) : Option Endpoint × Sending :=
  match l.endpoint with
  | some ep => (some ep, l)
  | none =>
    let (ep, core) := l.core.getOrCreateEndpoint sid
    (ep, { l with core := core, endpoint := ep })

/-- Posts the request list; packets are counted when all of it was handed to the verb. -/
def flush (l : Sending) (ep : Endpoint) (draw : Nat → Post) : Option Sending :=
  (l.core.endpointStore.postSendRequest ep l.requestList (draw l.posts)).map fun r =>
    { l with
      core := { l.core with endpointStore := r.2 }
      info := { l.info with sendPackets :=
        l.info.sendPackets + if r.1 = (l.requestList.length : Int) then l.requestList.length else 0 }
      requestList := []
      posts := l.posts + 1 }

end Sending

/-- `kRequestBatchSize` -/
def kRequestBatchSize : Nat := 4

/-- One packet of the loop that is old enough; `false` is the error return. -/
def sendIndex (currentTs : Nat) (draw : Nat → Post) (sid : Nat) (l : Sending) (curr : Nat) :
    Option (Bool × Sending) :=
  let l := l.touch currentTs curr
  match (l.queue.ring.getMutableEntry curr).serialize with
  | none => some (false, l)
  | some _ =>
    match l.connect sid with
    | (none, l) => some (false, l)
    | (some ep, l) =>
      let l := { l with requestList := l.requestList ++ [⟨none⟩] }
      if l.requestList.length = kRequestBatchSize then (l.flush ep draw).map (true, ·) else some (true, l)

/-- The loop over the packets of a session; it ends at the first that is too young. -/
def sendIndices (currentTs : Nat) (draw : Nat → Post) (sid : Nat) : List Nat → Sending → Option (Bool × Sending)
  | [], l => some (true, l)
  | curr :: rest, l =>
    if sub64 currentTs (l.queue.ring.getMutableEntry curr).ts < l.core.recvRto then some (true, l)
    else
      match sendIndex currentTs draw sid l curr with
      | none => none
      | some (false, l) => some (false, l)
      | some (true, l) => sendIndices currentTs draw sid rest l

/-- The indices a session may send: its window, cut to the copy's `cwnd`. -/
def sendRange (q : SendQueue) (e : SessionInfo) : List Nat :=
  List.range' q.tail (min q.ring.head (q.tail + e.cwnd) - q.tail)

/-- The rest of the request list is posted after the loop. -/
def finish (draw : Nat → Post) (l : Sending) : Option Sending :=
  match l.requestList, l.endpoint with
  | [], _ => some l
  | _ :: _, none => none
  | _ :: _, some ep => l.flush ep draw

/-- The queue is reached through its pointer, so its changes stay; the copy of the entry does not. -/
def Sending.store (l : Sending) (ptr : Nat) : Core :=
  { l.core with packetManager := l.core.packetManager.setSendQueue ptr l.queue }

/-- One session of `sendDataPackets`, with the indices it retransmitted. -/
def sendSession (currentTs : Nat) (draw : Nat → Post) (c : Core) (sid : Nat) : Option (Bool × Core × List Nat) :=
  match c.activeSessionMap.lookup sid with
  | none => none
  | some info =>
    if sub64 currentTs info.lastSendTs < c.recvRto * 2 / 3 then some (true, c, [])
    else
      match info.sendQueue with
      | none => none
      | some ptr =>
        match c.packetManager.sendQueue ptr with
        | none => none
        | some q =>
          match sendIndices currentTs draw sid (sendRange q info) ⟨c, info, q, none, [], 0, []⟩ with
          | none => none
          | some (false, l) => some (false, l.store ptr, l.resent)
          | some (true, l) => (finish draw l).map fun l => (true, l.store ptr, l.resent)

/-- `sendDataPackets` over the sessions in the order the map yields them: the return value, the state
and what was retransmitted. -/
def sendDataPackets (currentTs : Nat) (draw : Nat → Nat → Post) :
    List Nat → Core → Option (Int × Core × List (Nat × List Nat))
  | [], c => some (0, c, [])
  | sid :: rest, c =>
    match sendSession currentTs (draw sid) c sid with
    | none => none
    | some (false, c, resent) => some (-1, c, [(sid, resent)])
    | some (true, c, resent) =>
      (sendDataPackets currentTs draw rest c).map fun r => (r.1, r.2.1, (sid, resent) :: r.2.2)

/-- The window an ACK of `sendAckPackets` advertises. -/
def ackWnd (q : ReceiveQueue) : Nat := max (sub64 q.head q.tail) 8

def sendAckPackets (order : List (Nat × Post)) (c : Core) : Option (Int × Core) := sendAcks ackWnd false order c

/-! ## Receiving -/

/-- An ACK moves the send queue, the timer and the window. -/
def receiveAck (c : Core) (currentTs sid ptr : Nat) (e : SessionInfo) (q : SendQueue) (p : Packet) : Option Core :=
  let (_, q, pool) := q.markCompleted p.sn c.packetManager.pool
  let c := updateRTO kMinRTO kMaxRTO c (rttOf currentTs p.ts)
  (onSuccess c.mtuSize p.wnd e).map fun e =>
    let q : SendQueue := { q with ring := followWnd q.ring e.cwnd }
    let mgr := { c.packetManager with pool := pool }.setSendQueue ptr q
    { c with packetManager := mgr }.setSession sid e

/-- `processReceivedPacket` of a receive completion. -/
def processReceivedPacket (c : Core) (currentTs : Nat) (a : Arrival) : Option Core :=
  match a.packet with
  | none => some c
  | some p =>
    match c.controller.findSessionOfAddress a.gid a.srcQp p.session with
    | none => none
    | some none => some c
    | some (some sid) =>
      match c.activeSessionMap.lookup sid with
      | none => none
      | some e =>
        if p.cmd = pktCmdData then
          match e.receiveQueue with
          | none => none
          | some ptr => (c.packetManager.receiveQueue ptr).bind fun q => c.receiveData sid ptr e q p
        else
          match e.sendQueue with
          | none => none
          | some ptr => (c.packetManager.sendQueue ptr).bind fun q => receiveAck c currentTs sid ptr e q p

/-! ## The state machine -/

inductive Event
  | setupConnection (peerAddr : String) (gid : BitVec 128) (qpNumList extQpNumList : List Nat) (ahCreated : Bool)
  | send (peerName : String) (bufs : List Buffer)
  | receive (peerName : String) (bufs : List Buffer)
  | freeTask (taskId : Nat)
  | sendAcks (order : List (Nat × Post))
  | sendData (currentTs : Nat) (order : List Nat) (draw : Nat → Nat → Post)
  | arrive (currentTs : Nat) (a : Arrival)
  | sent (r : Nat × Request)

def step (c : Core) : Event → Option Core
  | .setupConnection p g Q ext ok => some (c.setupConnection p g Q ext ok).2
  | .send p bufs => (send c p bufs).map (·.2)
  | .receive p bufs => (receive c p bufs).map (·.2)
  | .freeTask id => some (c.freeTask id).2
  | .sendAcks order => (sendAckPackets order c).map (·.2)
  | .sendData ts order draw => (sendDataPackets ts draw order c).map (·.2.1)
  | .arrive ts a => processReceivedPacket c ts a
  | .sent r => some (c.completeSend r)

/-- What the map and the NIC guarantee: an iteration meets every session once, and a completion
belongs to an outstanding request. -/
def ok (c : Core) : Event → Prop
  | .sendAcks order => (order.map (·.1)).Perm c.activeSessionMap.keys
  | .sendData _ order _ => order.Perm c.activeSessionMap.keys
  | .sent r => r ∈ c.endpointStore.outstanding
  | _ => True

instance (c : Core) : ∀ e, Decidable (ok c e)
  | .sendAcks _ => inferInstanceAs (Decidable (List.Perm _ _))
  | .sendData _ _ _ => inferInstanceAs (Decidable (List.Perm _ _))
  | .sent _ => inferInstanceAs (Decidable (_ ∈ _))
  | .setupConnection .. => inferInstanceAs (Decidable True)
  | .send .. => inferInstanceAs (Decidable True)
  | .receive .. => inferInstanceAs (Decidable True)
  | .freeTask .. => inferInstanceAs (Decidable True)
  | .arrive .. => inferInstanceAs (Decidable True)

def start (cfg : Config) : Option Core := Core.construct kDefaultRTO cfg

/-- The states a context can be in. -/
def Reachable (cfg : Config) (es : List Event) (c : Core) : Prop :=
  ∃ c0, start cfg = some c0 ∧ Runs.Run step ok c0 es c

/-! ## What an event can do -/

/-- A call that names a peer: unknown, refused during the creation of the session, or queued. -/
theorem send_some {c c' : Core} {p : String} {bufs : List Buffer} {ret : Int} (h : send c p bufs = some (ret, c')) :
    (c.controller.findSession p 0 = none ∧ ret = -1 ∧ c' = c) ∨
    ∃ sid r c1, c.controller.findSession p 0 = some sid ∧ c.openSession sid = some (r, c1) ∧
      ((r ≠ 0 ∧ ret = r ∧ c' = c1) ∨ (r = 0 ∧ c1.pushSend sid bufs = some (ret, c'))) := by
  unfold send at h
  split at h
  · rename_i hf; cases h; exact .inl ⟨hf, rfl, rfl⟩
  · rename_i sid hf
    split at h
    · cases h
    · rename_i r c1 ho
      refine .inr ⟨sid, r, c1, hf, ho, ?_⟩
      split at h
      · rename_i hr; cases h; exact .inl ⟨hr, rfl, rfl⟩
      · rename_i hr; exact .inr ⟨by simpa using hr, h⟩

theorem receive_some {c c' : Core} {p : String} {bufs : List Buffer} {ret : Int}
    (h : receive c p bufs = some (ret, c')) :
    (c.controller.findSession p 0 = none ∧ ret = -1 ∧ c' = c) ∨
    ∃ sid r c1, c.controller.findSession p 0 = some sid ∧ c.openSession sid = some (r, c1) ∧
      ((r ≠ 0 ∧ ret = r ∧ c' = c1) ∨ (r = 0 ∧ c1.pushReceive sid bufs = some (ret, c'))) := by
  unfold receive at h
  split at h
  · rename_i hf; cases h; exact .inl ⟨hf, rfl, rfl⟩
  · rename_i sid hf
    split at h
    · cases h
    · rename_i r c1 ho
      refine .inr ⟨sid, r, c1, hf, ho, ?_⟩
      split at h
      · rename_i hr; cases h; exact .inl ⟨hr, rfl, rfl⟩
      · rename_i hr; exact .inr ⟨by simpa using hr, h⟩

/-- An ACK: the queue moves and is refilled, then follows the window; the entry keeps its counters. -/
theorem receiveAck_some {c c' : Core} {ts sid ptr : Nat} {e : SessionInfo} {q : SendQueue} {p : Packet}
    (h : receiveAck c ts sid ptr e q p = some c') :
    ∃ cwnd incr srtt rttval,
      c' = { c with
          recvSrtt := srtt
          recvRttval := rttval
          recvRto := min (max kMinRTO (srtt + 4 * rttval)) kMaxRTO
          packetManager := { c.packetManager with
            pool := (q.markCompleted p.sn c.packetManager.pool).2.2 }.setSendQueue ptr
              { (q.markCompleted p.sn c.packetManager.pool).2.1 with
                ring := followWnd (q.markCompleted p.sn c.packetManager.pool).2.1.ring cwnd } }.setSession sid
          { e with cwnd := cwnd, incr := incr, rwnd := p.wnd } := by
  unfold receiveAck at h
  simp only at h
  obtain ⟨e', he', rfl⟩ := Option.map_eq_some_iff.1 h
  obtain ⟨cwnd, incr, rfl⟩ := onSuccess_some he'
  exact ⟨cwnd, incr, _, _, rfl⟩

/-- Everything an arriving packet can do. -/
theorem processReceivedPacket_some {c c' : Core} {ts : Nat} {a : Arrival} (h : processReceivedPacket c ts a = some c') :
    c' = c ∨ ∃ p sid e, a.packet = some p ∧
    c.controller.findSessionOfAddress a.gid a.srcQp p.session = some (some sid) ∧
      c.activeSessionMap.lookup sid = some e ∧
      ((p.cmd = pktCmdData ∧ ∃ ptr q, e.receiveQueue = some ptr ∧ c.packetManager.receiveQueue ptr = some q ∧
        c.receiveData sid ptr e q p = some c') ∨
      (p.cmd ≠ pktCmdData ∧ ∃ ptr q, e.sendQueue = some ptr ∧ c.packetManager.sendQueue ptr = some q ∧
        receiveAck c ts sid ptr e q p = some c')) := by
  unfold processReceivedPacket at h
  split at h
  · cases h; exact .inl rfl
  · rename_i p hp
    split at h
    · cases h
    · cases h; exact .inl rfl
    · rename_i sid hs
      split at h
      · cases h
      · rename_i e he
        refine .inr ⟨p, sid, e, hp, hs, he, ?_⟩
        split at h
        · rename_i hcmd
          split at h
          · cases h
          · rename_i ptr hptr
            obtain ⟨q, hq, hr⟩ := Option.bind_eq_some_iff.1 h
            exact .inl ⟨hcmd, ptr, q, hptr, hq, hr⟩
        · rename_i hcmd
          split at h
          · cases h
          · rename_i ptr hptr
            obtain ⟨q, hq, hr⟩ := Option.bind_eq_some_iff.1 h
            exact .inr ⟨hcmd, ptr, q, hptr, hq, hr⟩

/-! ### `sendDataPackets` -/

/-- What the loop over the packets of a session respects: the state changes in its endpoint store
only, by requests for data, and the queue in send times and window only. -/
structure Sending.Sound (c : Core) (q : SendQueue) (l : Sending) : Prop where
  core : l.core = { c with endpointStore := l.core.endpointStore }
  tail : l.queue.tail = q.tail
  ring : q.ring.Restamped l.queue.ring
  posted : ∃ ds, l.core.endpointStore.outstanding = c.endpointStore.outstanding ++ ds ∧
    ∀ d ∈ ds, d.2.context = none
  requests : ∀ r ∈ l.requestList, r.context = none

namespace Sending.Sound

variable {c : Core} {q : SendQueue} {l l' : Sending}

theorem retransmit (h : Sound c q l) (curr : Nat) : Sound c q (l.retransmit curr) :=
  ⟨h.core, h.tail, h.ring.setWndSize _, h.posted, h.requests⟩

theorem stamp (h : Sound c q l) (ts curr : Nat) : Sound c q (l.stamp ts curr) :=
  ⟨h.core, h.tail, h.ring.setTs curr ts, h.posted, h.requests⟩

theorem touch (h : Sound c q l) (ts curr : Nat) : Sound c q (l.touch ts curr) := by
  unfold Sending.touch
  split
  · exact (h.retransmit curr).stamp ts curr
  · exact h.stamp ts curr

theorem connect (h : Sound c q l) (sid : Nat) : Sound c q (l.connect sid).2 := by
  unfold Sending.connect
  split
  · exact h
  · obtain ⟨st, hst, ho⟩ := getOrCreateEndpoint_snd l.core sid
    have hc := h.core
    refine ⟨?_, h.tail, h.ring, ?_, h.requests⟩
    · simp only [hst]; rw [hc]
    · simp only [hst, ho]; exact h.posted

theorem request (h : Sound c q l) : Sound c q { l with requestList := l.requestList ++ [⟨none⟩] } := by
  refine ⟨h.core, h.tail, h.ring, h.posted, fun r hr => ?_⟩
  rcases List.mem_append.1 hr with hr | hr
  · exact h.requests r hr
  · rw [List.mem_singleton.1 hr]

theorem flush (h : Sound c q l) {ep : Endpoint} {draw : Nat → Post} (hf : l.flush ep draw = some l') :
    Sound c q l' := by
  unfold Sending.flush at hf
  obtain ⟨⟨ret, st⟩, hp, rfl⟩ := Option.map_eq_some_iff.1 hf
  obtain ⟨qp, j, hj⟩ := EndpointStore.postSendRequest_outstanding hp
  obtain ⟨ds, hds, hnone⟩ := h.posted
  have hc := h.core
  refine ⟨?_, h.tail, h.ring, ⟨ds ++ (l.requestList.take j).map (qp, ·), ?_, fun d hd => ?_⟩, by simp⟩
  · simp only; rw [hc]
  · simp only [hj, hds, List.append_assoc]
  · rcases List.mem_append.1 hd with hd | hd
    · exact hnone d hd
    · obtain ⟨r, hr, rfl⟩ := List.mem_map.1 hd
      exact h.requests r (List.mem_of_mem_take hr)

theorem sendIndex (h : Sound c q l) {ts sid curr : Nat} {draw : Nat → Post} {b : Bool}
    (hs : Context.sendIndex ts draw sid l curr = some (b, l')) : Sound c q l' := by
  unfold Context.sendIndex at hs
  simp only at hs
  have hst := h.touch ts curr
  split at hs
  · cases hs; exact hst
  · have hcon := hst.connect sid
    split at hs
    · rename_i hl; rw [hl] at hcon; cases hs; exact hcon
    · rename_i hl
      rw [hl] at hcon
      split at hs
      · obtain ⟨l1, hf, he⟩ := Option.map_eq_some_iff.1 hs
        cases he
        exact hcon.request.flush hf
      · cases hs; exact hcon.request

theorem sendIndices {ts sid : Nat} {draw : Nat → Post} : ∀ {is : List Nat} {l l' : Sending} {b : Bool}, Sound c q l →
    Context.sendIndices ts draw sid is l = some (b, l') → Sound c q l'
  | [], l, l', b, h, hs => by cases hs; exact h
  | i :: is, l, l', b, h, hs => by
    unfold Context.sendIndices at hs
    split at hs
    · cases hs; exact h
    · split at hs
      · cases hs
      · rename_i l1 h1; cases hs; exact h.sendIndex h1
      · rename_i l1 h1; exact (h.sendIndex h1).sendIndices hs

theorem finish (h : Sound c q l) {draw : Nat → Post} (hf : Context.finish draw l = some l') : Sound c q l' := by
  unfold Context.finish at hf
  split at hf
  · cases hf; exact h
  · cases hf
  · exact h.flush hf

end Sending.Sound

/-- One session of `sendDataPackets`: nothing, or its send queue is restamped and data is posted. -/
theorem sendSession_some {ts : Nat} {draw : Nat → Post} {c c' : Core} {sid : Nat} {b : Bool} {resent : List Nat}
    (h : sendSession ts draw c sid = some (b, c', resent)) :
    c' = c ∨ ∃ e ptr q q' st ds, c.activeSessionMap.lookup sid = some e ∧ e.sendQueue = some ptr ∧
      c.packetManager.sendQueue ptr = some q ∧ q'.tail = q.tail ∧ q.ring.Restamped q'.ring ∧
      st.outstanding = c.endpointStore.outstanding ++ ds ∧ (∀ d ∈ ds, d.2.context = none) ∧
      c' = { c with endpointStore := st, packetManager := c.packetManager.setSendQueue ptr q' } := by
  unfold sendSession at h
  split at h
  · cases h
  · rename_i e he
    split at h
    · cases h; exact .inl rfl
    · split at h
      · cases h
      · rename_i ptr hptr
        split at h
        · cases h
        · rename_i q hq
          have h0 : Sending.Sound c q ⟨c, e, q, none, [], 0, []⟩ :=
            ⟨rfl, rfl, .refl _, ⟨[], by simp, by simp⟩, by simp⟩
          have key : ∀ l : Sending, Sending.Sound c q l → c' = l.store ptr → ∃ e ptr q q' st ds,
              c.activeSessionMap.lookup sid = some e ∧ e.sendQueue = some ptr ∧
              c.packetManager.sendQueue ptr = some q ∧ q'.tail = q.tail ∧ q.ring.Restamped q'.ring ∧
              st.outstanding = c.endpointStore.outstanding ++ ds ∧ (∀ d ∈ ds, d.2.context = none) ∧
              c' = { c with endpointStore := st, packetManager := c.packetManager.setSendQueue ptr q' } := by
            rintro l hl rfl
            obtain ⟨ds, hds, hnone⟩ := hl.posted
            have hc := hl.core
            refine ⟨e, ptr, q, l.queue, l.core.endpointStore, ds, he, hptr, hq, hl.tail, hl.ring, hds, hnone, ?_⟩
            unfold Sending.store; rw [hc]
          split at h
          · cases h
          · rename_i l hl; cases h; exact .inr (key l (h0.sendIndices hl) rfl)
          · rename_i l hl
            obtain ⟨l', hf, hx⟩ := Option.map_eq_some_iff.1 h
            cases hx
            exact .inr (key l' ((h0.sendIndices hl).finish hf) rfl)

/-- The invariant rule of `sendDataPackets`. -/
theorem sendDataPackets_rule {ts : Nat} {draw : Nat → Nat → Post} {P : Core → Prop}
    (hses : ∀ c sid b c' resent, P c → sendSession ts (draw sid) c sid = some (b, c', resent) → P c') :
    ∀ {order : List Nat} {c c' : Core} {ret : Int} {log : List (Nat × List Nat)}, P c →
      sendDataPackets ts draw order c = some (ret, c', log) → P c'
  | [], c, c', ret, log, hP, h => by cases h; exact hP
  | sid :: rest, c, c', ret, log, hP, h => by
    unfold sendDataPackets at h
    split at h
    · cases h
    · rename_i hs; cases h; exact hses c sid _ _ _ hP hs
    · rename_i c1 r hs
      obtain ⟨⟨ret', c2, log'⟩, hr, hx⟩ := Option.map_eq_some_iff.1 h
      cases hx
      exact sendDataPackets_rule hses (hses c sid _ c1 r hP hs) hr

/-- `sendDataPackets` leaves the session map, the controller and the timer alone. -/
theorem sendDataPackets_frame {ts : Nat} {draw : Nat → Nat → Post} {order : List Nat} {c c' : Core}
    {ret : Int} {log : List (Nat × List Nat)} (h : sendDataPackets ts draw order c = some (ret, c', log)) :
    c'.activeSessionMap = c.activeSessionMap ∧ c'.controller = c.controller ∧ c'.recvRto = c.recvRto := by
  refine sendDataPackets_rule (P := fun x => x.activeSessionMap = c.activeSessionMap ∧ x.controller = c.controller ∧
    x.recvRto = c.recvRto) ?_ ⟨rfl, rfl, rfl⟩ h
  intro x sid b x' r hx hs
  obtain rfl | ⟨e, ptr, q, q', st, ds, -, -, -, -, -, -, -, rfl⟩ := sendSession_some hs
  · exact hx
  · exact hx

/-! ### Events -/

/-- The session a call opens. -/
def opens (c : Core) : Event → Option Nat
  | .send p _ => c.controller.findSession p 0
  | .receive p _ => c.controller.findSession p 0
  | _ => none

/-- Everything an event can do, one constructor for each way it can go. -/
inductive Effect (c : Core) : Event → Core → Prop
  | ignored {e : Event} (h : opens c e = none) : Effect c e c
  | connected {p : String} {g : BitVec 128} {Q ext : List Nat} {created : Bool} {st : EndpointStore}
      (hst : st.outstanding = c.endpointStore.outstanding) :
      Effect c (.setupConnection p g Q ext created) { c with endpointStore := st }
  | registered {p : String} {g : BitVec 128} {Q ext : List Nat} {created : Bool} {st : EndpointStore}
      (hst : st.outstanding = c.endpointStore.outstanding) (hp : p ≠ "") :
      Effect c (.setupConnection p g Q ext created)
        { c with endpointStore := st, controller := c.controller.registerNode p g ext }
  | refused {e : Event} {sid : Nat} {r : Int} {c' : Core} (h : opens c e = some sid)
      (ho : c.openSession sid = some (r, c')) (hr : r ≠ 0) : Effect c e c'
  | sendPushed {p : String} {bufs : List Buffer} {sid ptr sn : Nat} {c1 c' : Core} {x : SessionInfo} {q q' : SendQueue}
      {ret : Int} {pool : PacketBufferPool} (hf : c.controller.findSession p 0 = some sid)
      (ho : c.openSession sid = some (0, c1)) (hx : c1.activeSessionMap.lookup sid = some x)
      (hptr : x.sendQueue = some ptr) (hq : c1.packetManager.sendQueue ptr = some q)
      (hpush : q.push bufs c1.packetManager.pool = some (ret, sn, q', pool))
      (h : c1.Pushed ({ c1.packetManager with pool := pool }.setSendQueue ptr q') ret ⟨sid, sn, true, ptr⟩ c') :
      Effect c (.send p bufs) c'
  | receivePushed {p : String} {bufs : List Buffer} {sid ptr sn : Nat} {c1 c' : Core} {x : SessionInfo}
      {q q' : ReceiveQueue} {ret : Int} (hf : c.controller.findSession p 0 = some sid)
      (ho : c.openSession sid = some (0, c1)) (hx : c1.activeSessionMap.lookup sid = some x)
      (hptr : x.receiveQueue = some ptr) (hq : c1.packetManager.receiveQueue ptr = some q)
      (hpush : q.push bufs = some (ret, sn, q'))
      (h : c1.Pushed (c1.packetManager.setReceiveQueue ptr q') ret ⟨sid, sn, false, ptr⟩ c') :
      Effect c (.receive p bufs) c'
  | freed {id : Nat} : Effect c (.freeTask id) { c with taskMap := Function.update c.taskMap id none }
  | acksSent {order : List (Nat × Post)} {ret : Int} {c' : Core} (h : sendAcks ackWnd false order c = some (ret, c')) :
      Effect c (.sendAcks order) c'
  | dataSent {ts : Nat} {order : List Nat} {draw : Nat → Nat → Post} {ret : Int} {c' : Core}
      {log : List (Nat × List Nat)} (h : sendDataPackets ts draw order c = some (ret, c', log)) :
      Effect c (.sendData ts order draw) c'
  | dataArrived {ts : Nat} {a : Arrival} {p : Packet} {sid ptr : Nat} {x : SessionInfo} {q : ReceiveQueue} {c' : Core}
      (hp : a.packet = some p)
      (hsid : c.controller.findSessionOfAddress a.gid a.srcQp p.session = some (some sid))
      (hx : c.activeSessionMap.lookup sid = some x) (hptr : x.receiveQueue = some ptr)
      (hq : c.packetManager.receiveQueue ptr = some q) (h : c.receiveData sid ptr x q p = some c') :
      Effect c (.arrive ts a) c'
  | ackArrived {ts : Nat} {a : Arrival} {p : Packet} {sid ptr : Nat} {x : SessionInfo} {q : SendQueue} {c' : Core}
      (hp : a.packet = some p)
      (hsid : c.controller.findSessionOfAddress a.gid a.srcQp p.session = some (some sid))
      (hx : c.activeSessionMap.lookup sid = some x) (hptr : x.sendQueue = some ptr)
      (hq : c.packetManager.sendQueue ptr = some q) (h : receiveAck c ts sid ptr x q p = some c') :
      Effect c (.arrive ts a) c'
  | completed {r : Nat × Request} : Effect c (.sent r) (c.completeSend r)

theorem effect {c c' : Core} {e : Event} (hs : step c e = some c') : Effect c e c' := by
  cases e with
  | setupConnection p g Q ext created =>
    cases hs
    have hst := c.endpointStore.setupConnection_outstanding p Q created
    obtain ⟨st, rfl, he | ⟨hp, he⟩⟩ := setupConnection_cases c p g Q ext created
    · rw [he]; exact .connected hst
    · rw [he]; exact .registered hst hp
  | send p bufs =>
    obtain ⟨⟨ret, c2⟩, hx, rfl⟩ := Option.map_eq_some_iff.1 hs
    obtain ⟨hf, -, rfl⟩ | ⟨sid, r, c1, hf, ho, ⟨hr, -, rfl⟩ | ⟨rfl, hp⟩⟩ := send_some hx
    · exact .ignored hf
    · exact .refused hf ho hr
    · obtain ⟨x, ptr, q, ret, sn, q', pool, hx, hptr, hq, hpush, h⟩ := pushSend_some hp
      exact .sendPushed hf ho hx hptr hq hpush h
  | receive p bufs =>
    obtain ⟨⟨ret, c2⟩, hx, rfl⟩ := Option.map_eq_some_iff.1 hs
    obtain ⟨hf, -, rfl⟩ | ⟨sid, r, c1, hf, ho, ⟨hr, -, rfl⟩ | ⟨rfl, hp⟩⟩ := receive_some hx
    · exact .ignored hf
    · exact .refused hf ho hr
    · obtain ⟨x, ptr, q, ret, sn, q', hx, hptr, hq, hpush, h⟩ := pushReceive_some hp
      exact .receivePushed hf ho hx hptr hq hpush h
  | freeTask id =>
    cases hs
    obtain he | he := freeTask_cases c id
    · rw [he]; exact .ignored rfl
    · rw [he]; exact .freed
  | sendAcks order =>
    obtain ⟨⟨ret, c2⟩, hx, rfl⟩ := Option.map_eq_some_iff.1 hs
    exact .acksSent hx
  | sendData ts order draw =>
    obtain ⟨⟨ret, c2, log⟩, hx, rfl⟩ := Option.map_eq_some_iff.1 hs
    exact .dataSent hx
  | arrive ts a =>
    obtain rfl | ⟨p, sid, x, hp, hsid, hx, ⟨-, ptr, q, hptr, hq, h⟩ | ⟨-, ptr, q, hptr, hq, h⟩⟩ :=
      processReceivedPacket_some hs
    · exact .ignored rfl
    · exact .dataArrived hp hsid hx hptr hq h
    · exact .ackArrived hp hsid hx hptr hq h
  | sent r => cases hs; exact .completed

end RapidTransfer.Context
