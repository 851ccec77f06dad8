/-
The multicast context (`context_mcast.cpp`) as a state machine, in the manner of the unicast one. Its
sends go to a group: the send queue of a session is a `McastSendQueue`, a transmission is posted once
to the group's own queue pair, and an ACK is redirected from the peer it came from to the group that
lists the peer as a replica.
-/
import RapidTransfer.Context.Frame
import RapidTransfer.Lib.Runs

namespace RapidTransfer

/-- The state of a `ContextMcast`: what it shares with `Context`, the receive handles of its groups
and the depth of their send queues. -/
structure ContextMcast extends Core where
  multicastRecvInfoMap : String → Option (List PacketHandle)
  mcastSendWrDepth : String → Int

namespace ContextMcast

open RapidTransfer.Core

def kDefaultRTO : Nat := 8196
def kMinRTO : Nat := 64
def kMaxRTO : Nat := 8196 * 2

/-! ## Groups -/

/-- Allocates the receive handles of a group in turn: the handles, the pool, and whether all of them
got a packet. -/
def allocateHandles : List PacketHandle → PacketBufferPool → Bool × List PacketHandle × PacketBufferPool
  | [], pool => (true, [], pool)
  | h :: hs, pool =>
    match pool.allocatePacket true with
    | none => (false, h :: hs, pool)
    | some (h, pool) =>
      let (ok, hs, pool) := allocateHandles hs pool
      (ok, h :: hs, pool)

/-- `vector::resize` of receive handles. -/
def resizeHandles (raw : PacketHandle) (hs : List PacketHandle) : List PacketHandle :=
  hs.take kNumReceiveHandles ++ List.replicate (kNumReceiveHandles - hs.length) (PacketHandle.construct raw)

/-- The state `joinMulticast` leaves when the controller has joined: the group's handles and what is
left of the pool. -/
def joined (c : ContextMcast) (addr : String) (handles : List PacketHandle) (pool : PacketBufferPool) : ContextMcast :=
  { c with
    packetManager := { c.packetManager with pool := pool }
    multicastRecvInfoMap := Function.update c.multicastRecvInfoMap addr (some handles)
    mcastSendWrDepth := Function.update c.mcastSendWrDepth addr 0 }

/-- `joinMulticast`; the flags are whether the group could be set up and the arena be registered. -/
def joinMulticast (c : ContextMcast) (addr : String) (constructed registered : Bool) : Int × ContextMcast :=
  let r := c.controller.joinMulticast addr constructed
  let c := { c with controller := r.2 }
  if r.1 ≠ 0 then (r.1, c)
  else
    let handles := resizeHandles c.packetManager.raw ((c.multicastRecvInfoMap addr).getD [])
    if !registered then (-1, c.joined addr handles c.packetManager.pool)
    else
      let a := allocateHandles handles c.packetManager.pool
      (if a.1 then 0 else -1, c.joined addr a.2.1 a.2.2)

/-- The packets of handles go back to the pool; a handle without one is skipped. -/
def freeHandles (hs : List PacketHandle) (pool : PacketBufferPool) : PacketBufferPool :=
  hs.foldl (fun pool h => (pool.freePacket h).getD pool) pool

/-- `leaveMulticast`; an address that is not joined dereferences a null context. -/
def leaveMulticast (c : ContextMcast) (addr : String) : Option (Int × ContextMcast) :=
  match c.controller.getMulticastContext addr with
  | none => none
  | some _ =>
    let pool := freeHandles ((c.multicastRecvInfoMap addr).getD []) c.packetManager.pool
    let (ret, controller) := c.controller.leaveMulticast addr
    some (ret, { c with controller := controller
                        packetManager := { c.packetManager with pool := pool }
                        multicastRecvInfoMap := Function.update c.multicastRecvInfoMap addr none })

/-- `setMulticastReplicas`: the list of the group is replaced before the number is refused. -/
def setMulticastReplicas (c : ContextMcast) (addr : String) (peerNameList : List String) : Int × ContextMcast :=
  match c.controller.getMulticastContext addr with
  | none => (-1, c)
  | some g =>
    let (ret, mgr) := c.packetManager.setMulticastReplicaNum g.groupId peerNameList.length
    (ret, { c with controller := c.controller.setReplicas addr g peerNameList, packetManager := mgr })

/-! ## The API -/

def send (c : ContextMcast) (peerName : String) (bufs : List Buffer) : Option (Int × ContextMcast) :=
  match c.controller.getMulticastContext peerName with
  | none => some (-1, c)
  | some _ =>
    match c.controller.findSession peerName 0 with
    | none => none
    | some sid =>
      match c.openSession sid with
      | none => none
      | some (ret, core) =>
        if ret ≠ 0 then some (ret, { c with toCore := core })
        else (core.pushMcastSend sid bufs).map fun r => (r.1, { c with toCore := r.2 })

def receive (c : ContextMcast) (peerName : String) (bufs : List Buffer) : Option (Int × ContextMcast) :=
  match c.controller.getMulticastContext peerName with
  | some _ => some (-1, c)
  | none =>
    match c.controller.findSession peerName 0 with
    | none => some (-1, c)
    | some sid =>
      match c.openSession sid with
      | none => none
      | some (ret, core) =>
        if ret ≠ 0 then some (ret, { c with toCore := core })
        else (core.pushReceive sid bufs).map fun r => (r.1, { c with toCore := r.2 })

def getStatus (c : ContextMcast) (taskId : Nat) : Option Status :=
  match c.taskMap taskId with
  | none => some .unknown
  | some t =>
    if t.isSend then
      (c.packetManager.mcastSendQueue t.queue).map fun q => statusOf t.lastSn (q.getAckSN (-1)) q.getNextSN
    else (c.packetManager.receiveQueue t.queue).map fun q => statusOf t.lastSn q.getAckSN q.getNextSN

/-! ## Sending -/

def backoff (mtuSize : Nat) (e : SessionInfo) : SessionInfo :=
  { e with ssthresh := max kMinSSThreshValue (e.cwnd / 2), cwnd := 1, incr := mtuSize }

/-- The locals of `sendDataPackets` for one session: `info` is the loop's copy of the map entry. -/
structure Sending where
  info : SessionInfo
  queue : McastSendQueue
  depth : Int
  requestList : List Request
  posts : Nat
  resent : List Nat

namespace Sending

def retransmit (l : Sending) (mtuSize curr : Nat) : Sending :=
  let info := backoff mtuSize l.info
  { l with info := info, queue := l.queue.setWndSize info.cwnd, resent := l.resent ++ [curr] }

def stamp (l : Sending) (currentTs curr : Nat) : Sending :=
  { l with queue := { l.queue with ring := l.queue.ring.setTs curr currentTs } }

/-- An entry that is old enough: a retransmission is reacted to, and the time is set. -/
def touch (l : Sending) (mtuSize currentTs curr : Nat) : Sending :=
  (if (l.queue.ring.getMutableEntry curr).ts ≠ 0 then l.retransmit mtuSize curr else l).stamp currentTs curr

/-- `RdmaMulticastContext::postSendRequest`: what does not fit the queue pair is dropped; a refusal
of the verb aborts. The packets are counted in any case. -/
def flush (l : Sending) (maxWrPerQp : Int) (draw : Nat → Bool) : Option Sending :=
  let wrCount := min (maxWrPerQp - l.depth) l.requestList.length
  let counted := { l with
    info := { l.info with sendPackets := l.info.sendPackets + l.requestList.length }
    requestList := []
    posts := l.posts + 1 }
  if wrCount = 0 then some counted
  else if wrCount < 0 ∨ !draw l.posts then none
  else some { counted with depth := l.depth + wrCount }

end Sending

/-- The function `forEach` applies to an entry; its result is ignored, so an entry that cannot be
serialised is skipped. -/
def sendIndex (c : ContextMcast) (currentTs : Nat) (draw : Nat → Bool) (l : Sending) (curr : Nat) : Option Sending :=
  if sub64 currentTs (l.queue.ring.getMutableEntry curr).ts < c.recvRto then some l
  else
    let l := l.touch c.mtuSize currentTs curr
    match (l.queue.ring.getMutableEntry curr).serialize with
    | none => some l
    | some _ =>
      let l := { l with requestList := l.requestList ++ [⟨none⟩] }
      if l.requestList.length = 4 then l.flush c.endpointStore.maxWrDepth draw else some l

def sendIndices (c : ContextMcast) (currentTs : Nat) (draw : Nat → Bool) : List Nat → Sending → Option Sending
  | [], l => some l
  | curr :: rest, l => (sendIndex c currentTs draw l curr).bind (sendIndices c currentTs draw rest)

/-- The indices of `forEach`: from the least tail to `head_`, around `2^64` without replicas. -/
def sendRange (q : McastSendQueue) : List Nat :=
  (List.range (sub64 q.ring.head q.getMinTailIndex)).map fun k => (q.getMinTailIndex + k) % 2 ^ 64

/-- `forEach` over a queue, then the rest of the request list is posted. -/
def sendQueue (c : ContextMcast) (currentTs : Nat) (draw : Nat → Bool) (addr : String) (info : SessionInfo)
    (q : McastSendQueue) : Option Sending :=
  (sendIndices c currentTs draw (sendRange q) ⟨info, q, c.mcastSendWrDepth addr, [], 0, []⟩).bind fun l =>
    if l.requestList = [] then some l else l.flush c.endpointStore.maxWrDepth draw

/-- One session of `sendDataPackets`, with the indices it retransmitted; a session that is not a
group's is skipped. -/
def sendSession (currentTs : Nat) (draw : Nat → Bool) (c : ContextMcast) (sid : Nat) :
    Option (ContextMcast × List Nat) :=
  match c.activeSessionMap.lookup sid with
  | none => none
  | some info =>
    match (c.controller.peerNameRevMap (sid / 256)).filter (· ∈ c.controller.multicastContextMap) with
    | none => some (c, [])
    | some addr =>
      match info.mcastSendQueue with
      | none => none
      | some ptr =>
        match c.packetManager.mcastSendQueue ptr with
        | none => none
        | some q =>
          (sendQueue c currentTs draw addr info q).map fun l =>
            ({ c with packetManager := c.packetManager.setMcastSendQueue ptr l.queue
                      mcastSendWrDepth := Function.update c.mcastSendWrDepth addr l.depth }, l.resent)

def sendDataPackets (currentTs : Nat) (draw : Nat → Nat → Bool) :
    List Nat → ContextMcast → Option (Int × ContextMcast × List (Nat × List Nat))
  | [], c => some (0, c, [])
  | sid :: rest, c =>
    match sendSession currentTs (draw sid) c sid with
    | none => none
    | some (c, resent) => (sendDataPackets currentTs draw rest c).map fun r => (r.1, r.2.1, (sid, resent) :: r.2.2)

/-- The completion of a transmission to a group. -/
def completeMcastSend (c : ContextMcast) (addr : String) : ContextMcast :=
  { c with mcastSendWrDepth := Function.update c.mcastSendWrDepth addr (c.mcastSendWrDepth addr - 1) }

def sendAckPackets (order : List (Nat × Post)) (c : ContextMcast) : Option (Int × ContextMcast) :=
  (sendAcks (·.wndSize) true order c.toCore).map fun r => (r.1, { c with toCore := r.2 })

/-! ## Receiving -/

/-- An ACK moves one tail of the send queue, the timer and the window. -/
def receiveAck (c : Core) (currentTs sid ptr : Nat) (e : SessionInfo) (q : McastSendQueue) (index : Nat) (p : Packet) :
    Option Core :=
  let (_, q, pool) := q.markCompleted index p.sn c.packetManager.pool
  let c := updateRTO kMinRTO kMaxRTO c (rttOf currentTs p.ts)
  (onSuccess c.mtuSize p.wnd e).map fun e =>
    let q : McastSendQueue := { q with ring := followWnd q.ring e.cwnd }
    let mgr := { c.packetManager with pool := pool }.setMcastSendQueue ptr q
    { c with packetManager := mgr }.setSession sid e

/-- The DATA branch: a queue without outstanding requests drops the packet uncounted. -/
def processData (c : Core) (sid : Nat) (p : Packet) : Option Core :=
  match c.activeSessionMap.lookup sid with
  | none => none
  | some e =>
    match e.receiveQueue with
    | none => none
    | some ptr =>
      (c.packetManager.receiveQueue ptr).bind fun q => if q.head = q.tail then some c else c.receiveData sid ptr e q p

/-- The ACK branch, after the session was redirected. -/
def processAck (c : Core) (currentTs sid index : Nat) (p : Packet) : Option Core :=
  match c.activeSessionMap.lookup sid with
  | none => none
  | some e =>
    match e.mcastSendQueue with
    | none => none
    | some ptr => (c.packetManager.mcastSendQueue ptr).bind fun q => receiveAck c currentTs sid ptr e q index p

/-- The session of a packet: by its source, or by the group it was sent to. -/
def sessionOf (c : Core) (a : Arrival) (multicastAddr : Option String) (session : Nat) : Option (Option Nat) :=
  (c.controller.findSessionOfAddress a.gid a.srcQp session).map fun s =>
    match s with
    | some sid => some sid
    | none => multicastAddr.bind fun addr => c.controller.findSession addr session

/-- `processReceivedPacket` of a receive completion, on a group's queue pair or on a plain one. -/
def processReceivedPacket (c : Core) (currentTs : Nat) (a : Arrival) (multicastAddr : Option String) : Option Core :=
  match a.packet with
  | none => some c
  | some p =>
    match sessionOf c a multicastAddr p.session with
    | none => none
    | some none => some c
    | some (some sid) =>
      if p.cmd = pktCmdData then processData c sid p
      else processAck c currentTs (c.controller.redirectMulticast sid).1 (c.controller.redirectMulticast sid).2 p

/-! ## The state machine -/

inductive Event
  | setupConnection (peerAddr : String) (gid : BitVec 128) (qpNumList extQpNumList : List Nat) (ahCreated : Bool)
  | joinMulticast (addr : String) (constructed registered : Bool)
  | leaveMulticast (addr : String)
  | setMulticastReplicas (addr : String) (peerNameList : List String)
  | send (peerName : String) (bufs : List Buffer)
  | receive (peerName : String) (bufs : List Buffer)
  | freeTask (taskId : Nat)
  | sendAcks (order : List (Nat × Post))
  | sendData (currentTs : Nat) (order : List Nat) (draw : Nat → Nat → Bool)
  | arrive (currentTs : Nat) (a : Arrival) (multicastAddr : Option String)
  | sent (r : Nat × Request)
  | mcastSent (addr : String)

def step (c : ContextMcast) : Event → Option ContextMcast
  | .setupConnection p g Q ext ok => some { c with toCore := (c.toCore.setupConnection p g Q ext ok).2 }
  | .joinMulticast addr constructed registered => some (c.joinMulticast addr constructed registered).2
  | .leaveMulticast addr => (c.leaveMulticast addr).map (·.2)
  | .setMulticastReplicas addr peers => some (c.setMulticastReplicas addr peers).2
  | .send p bufs => (c.send p bufs).map (·.2)
  | .receive p bufs => (c.receive p bufs).map (·.2)
  | .freeTask id => some { c with toCore := (c.toCore.freeTask id).2 }
  | .sendAcks order => (sendAckPackets order c).map (·.2)
  | .sendData ts order draw => (sendDataPackets ts draw order c).map (·.2.1)
  | .arrive ts a addr => (processReceivedPacket c.toCore ts a addr).map fun core => { c with toCore := core }
  | .sent r => some { c with toCore := c.toCore.completeSend r }
  | .mcastSent addr => some (c.completeMcastSend addr)

/-- What the map and the NIC guarantee. -/
def ok (c : ContextMcast) : Event → Prop
  | .sendAcks order => (order.map (·.1)).Perm c.activeSessionMap.keys
  | .sendData _ order _ => order.Perm c.activeSessionMap.keys
  | .arrive _ _ (some addr) => addr ∈ c.controller.multicastContextMap
  | .sent r => r ∈ c.endpointStore.outstanding
  | .mcastSent addr => addr ∈ c.controller.multicastContextMap ∧ 0 < c.mcastSendWrDepth addr
  | _ => True

instance (c : ContextMcast) : ∀ e, Decidable (ok c e)
  | .sendAcks _ => inferInstanceAs (Decidable (List.Perm _ _))
  | .sendData _ _ _ => inferInstanceAs (Decidable (List.Perm _ _))
  | .arrive _ _ (some _) => inferInstanceAs (Decidable (_ ∈ _))
  | .arrive _ _ none => inferInstanceAs (Decidable True)
  | .sent _ => inferInstanceAs (Decidable (_ ∈ _))
  | .mcastSent _ => inferInstanceAs (Decidable (_ ∧ _))
  | .setupConnection .. => inferInstanceAs (Decidable True)
  | .joinMulticast .. => inferInstanceAs (Decidable True)
  | .leaveMulticast .. => inferInstanceAs (Decidable True)
  | .setMulticastReplicas .. => inferInstanceAs (Decidable True)
  | .send .. => inferInstanceAs (Decidable True)
  | .receive .. => inferInstanceAs (Decidable True)
  | .freeTask .. => inferInstanceAs (Decidable True)

def start (cfg : Config) : Option ContextMcast :=
  (Core.construct kDefaultRTO cfg).map fun core => ⟨core, fun _ => none, fun _ => 0⟩

/-- The states a context can be in. -/
def Reachable (cfg : Config) (es : List Event) (c : ContextMcast) : Prop :=
  ∃ c0, start cfg = some c0 ∧ Runs.Run step ok c0 es c

/-! ## What an event can do -/

/-- `joinMulticast` changes the controller, the pool, and the group's own entries. -/
theorem joinMulticast_cases (c : ContextMcast) (addr : String) (constructed registered : Bool) :
    (c.joinMulticast addr constructed registered).2 =
      { c with controller := (c.controller.joinMulticast addr constructed).2 } ∨
    ∃ handles pool, (c.joinMulticast addr constructed registered).2 =
      joined { c with controller := (c.controller.joinMulticast addr constructed).2 } addr handles pool := by
  unfold joinMulticast
  simp only
  split
  · exact .inl rfl
  · split
    · exact .inr ⟨_, _, rfl⟩
    · exact .inr ⟨_, _, rfl⟩

theorem leaveMulticast_some {c c' : ContextMcast} {addr : String} {ret : Int}
    (h : c.leaveMulticast addr = some (ret, c')) :
    ∃ pool info, c' = { c with controller := (c.controller.leaveMulticast addr).2
                               packetManager := { c.packetManager with pool := pool }
                               multicastRecvInfoMap := info } := by
  unfold leaveMulticast at h
  split at h
  · cases h
  · cases h; exact ⟨_, _, rfl⟩

/-- `setMulticastReplicas`: unknown group, or the list is replaced and the number stored or refused. -/
theorem setMulticastReplicas_cases (c : ContextMcast) (addr : String) (peers : List String) :
    (c.controller.getMulticastContext addr = none ∧ (c.setMulticastReplicas addr peers).2 = c) ∨
    ∃ g, c.controller.getMulticastContext addr = some g ∧ (c.setMulticastReplicas addr peers).2 =
      { c with controller := c.controller.setReplicas addr g peers
               packetManager := (c.packetManager.setMulticastReplicaNum g.groupId peers.length).2 } := by
  unfold setMulticastReplicas
  split
  · rename_i hg; exact .inl ⟨hg, rfl⟩
  · rename_i g hg; exact .inr ⟨g, hg, rfl⟩

theorem send_some {c c' : ContextMcast} {p : String} {bufs : List Buffer} {ret : Int}
    (h : c.send p bufs = some (ret, c')) :
    (c.controller.getMulticastContext p = none ∧ ret = -1 ∧ c' = c) ∨
    ∃ g sid r c1, c.controller.getMulticastContext p = some g ∧ c.controller.findSession p 0 = some sid ∧
      c.openSession sid = some (r, c1) ∧
      ((r ≠ 0 ∧ ret = r ∧ c' = { c with toCore := c1 }) ∨
        (r = 0 ∧ ∃ c2, c1.pushMcastSend sid bufs = some (ret, c2) ∧ c' = { c with toCore := c2 })) := by
  unfold send at h
  split at h
  · rename_i hg; cases h; exact .inl ⟨hg, rfl, rfl⟩
  · rename_i g hg
    split at h
    · cases h
    · rename_i sid hf
      split at h
      · cases h
      · rename_i r c1 ho
        refine .inr ⟨g, sid, r, c1, hg, hf, ho, ?_⟩
        split at h
        · rename_i hr; cases h; exact .inl ⟨hr, rfl, rfl⟩
        · rename_i hr
          obtain ⟨⟨ret', c2⟩, hp, hx⟩ := Option.map_eq_some_iff.1 h
          cases hx
          exact .inr ⟨by simpa using hr, c2, hp, rfl⟩

theorem receive_some {c c' : ContextMcast} {p : String} {bufs : List Buffer} {ret : Int}
    (h : c.receive p bufs = some (ret, c')) :
    (ret = -1 ∧ c' = c ∧ ((∃ g, c.controller.getMulticastContext p = some g) ∨ c.controller.findSession p 0 = none)) ∨
    ∃ sid r c1, c.controller.getMulticastContext p = none ∧ c.controller.findSession p 0 = some sid ∧
      c.openSession sid = some (r, c1) ∧
      ((r ≠ 0 ∧ ret = r ∧ c' = { c with toCore := c1 }) ∨
        (r = 0 ∧ ∃ c2, c1.pushReceive sid bufs = some (ret, c2) ∧ c' = { c with toCore := c2 })) := by
  unfold receive at h
  split at h
  · rename_i g hg; cases h; exact .inl ⟨rfl, rfl, .inl ⟨g, hg⟩⟩
  · rename_i hg
    split at h
    · rename_i hf; cases h; exact .inl ⟨rfl, rfl, .inr hf⟩
    · rename_i sid hf
      split at h
      · cases h
      · rename_i r c1 ho
        refine .inr ⟨sid, r, c1, hg, hf, ho, ?_⟩
        split at h
        · rename_i hr; cases h; exact .inl ⟨hr, rfl, rfl⟩
        · rename_i hr
          obtain ⟨⟨ret', c2⟩, hp, hx⟩ := Option.map_eq_some_iff.1 h
          cases hx
          exact .inr ⟨by simpa using hr, c2, hp, rfl⟩

theorem receiveAck_some {c c' : Core} {ts sid ptr index : Nat} {e : SessionInfo} {q : McastSendQueue} {p : Packet}
    (h : receiveAck c ts sid ptr e q index p = some c') :
    ∃ cwnd incr srtt rttval,
      c' = { c with
          recvSrtt := srtt
          recvRttval := rttval
          recvRto := min (max kMinRTO (srtt + 4 * rttval)) kMaxRTO
          packetManager := { c.packetManager with
            pool := (q.markCompleted index p.sn c.packetManager.pool).2.2 }.setMcastSendQueue ptr
              { (q.markCompleted index p.sn c.packetManager.pool).2.1 with
                ring := followWnd (q.markCompleted index p.sn c.packetManager.pool).2.1.ring cwnd } }.setSession sid
          { e with cwnd := cwnd, incr := incr, rwnd := p.wnd } := by
  unfold receiveAck at h
  simp only at h
  obtain ⟨e', he', rfl⟩ := Option.map_eq_some_iff.1 h
  obtain ⟨cwnd, incr, rfl⟩ := onSuccess_some he'
  exact ⟨cwnd, incr, _, _, rfl⟩

/-- The DATA branch: dropped, or handed to the receive queue and counted. -/
theorem processData_some {c c' : Core} {sid : Nat} {p : Packet} (h : processData c sid p = some c') :
    ∃ e ptr q, c.activeSessionMap.lookup sid = some e ∧ e.receiveQueue = some ptr ∧
      c.packetManager.receiveQueue ptr = some q ∧
      ((q.head = q.tail ∧ c' = c) ∨ (q.head ≠ q.tail ∧ c.receiveData sid ptr e q p = some c')) := by
  unfold processData at h
  split at h
  · cases h
  · rename_i e he
    split at h
    · cases h
    · rename_i ptr hptr
      obtain ⟨q, hq, hr⟩ := Option.bind_eq_some_iff.1 h
      refine ⟨e, ptr, q, he, hptr, hq, ?_⟩
      split at hr
      · rename_i hh; cases hr; exact .inl ⟨hh, rfl⟩
      · rename_i hh; exact .inr ⟨hh, hr⟩

theorem processAck_some {c c' : Core} {ts sid index : Nat} {p : Packet} (h : processAck c ts sid index p = some c') :
    ∃ e ptr q, c.activeSessionMap.lookup sid = some e ∧ e.mcastSendQueue = some ptr ∧
      c.packetManager.mcastSendQueue ptr = some q ∧ receiveAck c ts sid ptr e q index p = some c' := by
  unfold processAck at h
  split at h
  · cases h
  · rename_i e he
    split at h
    · cases h
    · rename_i ptr hptr
      obtain ⟨q, hq, hr⟩ := Option.bind_eq_some_iff.1 h
      exact ⟨e, ptr, q, he, hptr, hq, hr⟩

/-- Everything an arriving packet can do. -/
theorem processReceivedPacket_some {c c' : Core} {ts : Nat} {a : Arrival} {addr : Option String}
    (h : processReceivedPacket c ts a addr = some c') :
    c' = c ∨ ∃ p sid, a.packet = some p ∧ sessionOf c a addr p.session = some (some sid) ∧
      ((p.cmd = pktCmdData ∧ processData c sid p = some c') ∨
        (p.cmd ≠ pktCmdData ∧ processAck c ts (c.controller.redirectMulticast sid).1
          (c.controller.redirectMulticast sid).2 p = some c')) := by
  unfold processReceivedPacket at h
  split at h
  · cases h; exact .inl rfl
  · rename_i p hp
    split at h
    · cases h
    · cases h; exact .inl rfl
    · rename_i sid hs
      refine .inr ⟨p, sid, hp, hs, ?_⟩
      split at h
      · rename_i hc; exact .inl ⟨hc, h⟩
      · rename_i hc; exact .inr ⟨hc, h⟩

/-! ### `sendDataPackets` -/

/-- What the loop over the entries of a queue respects. -/
structure Sending.Sound (q : McastSendQueue) (l : Sending) : Prop where
  tailList : l.queue.tailList = q.tailList
  ring : q.ring.Restamped l.queue.ring

theorem Sending.Sound.flush {q : McastSendQueue} {l l' : Sending} (h : Sending.Sound q l) {n : Int} {draw : Nat → Bool}
    (hf : l.flush n draw = some l') : Sending.Sound q l' := by
  unfold Sending.flush at hf
  simp only at hf
  split at hf
  · cases hf; exact ⟨h.tailList, h.ring⟩
  · split at hf
    · cases hf
    · cases hf; exact ⟨h.tailList, h.ring⟩

theorem Sending.Sound.sendIndex {q : McastSendQueue} {l l' : Sending} (h : Sending.Sound q l) {c : ContextMcast}
    {ts curr : Nat} {draw : Nat → Bool} (hs : ContextMcast.sendIndex c ts draw l curr = some l') :
    Sending.Sound q l' := by
  unfold ContextMcast.sendIndex at hs
  split at hs
  · cases hs; exact h
  · simp only at hs
    have hst : Sending.Sound q (l.touch c.mtuSize ts curr) := by
      unfold Sending.touch
      split
      · exact ⟨h.tailList, (h.ring.setWndSize _).setTs curr ts⟩
      · exact ⟨h.tailList, h.ring.setTs curr ts⟩
    split at hs
    · cases hs; exact hst
    · split at hs
      · exact Sending.Sound.flush (by exact ⟨hst.tailList, hst.ring⟩) hs
      · cases hs; exact ⟨hst.tailList, hst.ring⟩

theorem Sending.Sound.sendIndices {q : McastSendQueue} {c : ContextMcast} {ts : Nat} {draw : Nat → Bool} {is : List Nat}
    {l l' : Sending} (h : Sending.Sound q l) (hs : ContextMcast.sendIndices c ts draw is l = some l') :
    Sending.Sound q l' := by
  induction is generalizing l with
  | nil => cases hs; exact h
  | cons i is ih =>
    obtain ⟨l1, h1, h2⟩ := Option.bind_eq_some_iff.1 hs
    exact ih (h.sendIndex h1) h2

theorem Sending.Sound.sendQueue {q : McastSendQueue} {c : ContextMcast} {ts : Nat} {draw : Nat → Bool} {addr : String}
    {info : SessionInfo} {l : Sending} (h : ContextMcast.sendQueue c ts draw addr info q = some l) :
    Sending.Sound q l := by
  obtain ⟨l1, h1, h2⟩ := Option.bind_eq_some_iff.1 h
  have hs : Sending.Sound q l1 := Sending.Sound.sendIndices ⟨rfl, .refl _⟩ h1
  split at h2
  · cases h2; exact hs
  · exact hs.flush h2

/-- One session of `sendDataPackets`: nothing, or its multicast send queue is restamped. -/
theorem sendSession_some {ts : Nat} {draw : Nat → Bool} {c c' : ContextMcast} {sid : Nat} {resent : List Nat}
    (h : sendSession ts draw c sid = some (c', resent)) :
    (c' = c ∧ resent = []) ∨ ∃ e ptr q q' depth, c.activeSessionMap.lookup sid = some e ∧ e.mcastSendQueue = some ptr ∧
      c.packetManager.mcastSendQueue ptr = some q ∧ q'.tailList = q.tailList ∧ q.ring.Restamped q'.ring ∧
      c' = { c with packetManager := c.packetManager.setMcastSendQueue ptr q', mcastSendWrDepth := depth } := by
  unfold sendSession at h
  split at h
  · cases h
  · rename_i e he
    split at h
    · cases h; exact .inl ⟨rfl, rfl⟩
    · split at h
      · cases h
      · rename_i ptr hptr
        split at h
        · cases h
        · rename_i q hq
          obtain ⟨l, hl, hx⟩ := Option.map_eq_some_iff.1 h
          cases hx
          have hs := Sending.Sound.sendQueue hl
          exact .inr ⟨e, ptr, q, l.queue, _, he, hptr, hq, hs.tailList, hs.ring, rfl⟩

/-- The invariant rule of `sendDataPackets`. -/
theorem sendDataPackets_rule {ts : Nat} {draw : Nat → Nat → Bool} {P : ContextMcast → Prop}
    (hses : ∀ c sid c' resent, P c → sendSession ts (draw sid) c sid = some (c', resent) → P c') :
    ∀ {order : List Nat} {c c' : ContextMcast} {ret : Int} {log : List (Nat × List Nat)}, P c →
      sendDataPackets ts draw order c = some (ret, c', log) → P c'
  | [], c, c', ret, log, hP, h => by cases h; exact hP
  | sid :: rest, c, c', ret, log, hP, h => by
    unfold sendDataPackets at h
    split at h
    · cases h
    · rename_i c1 r hs
      obtain ⟨⟨ret', c2, log'⟩, hr, hx⟩ := Option.map_eq_some_iff.1 h
      cases hx
      exact sendDataPackets_rule hses (hses c sid c1 r hP hs) hr

/-- `sendDataPackets` changes the multicast send queues and the depths of the groups only. -/
theorem sendDataPackets_frame {ts : Nat} {draw : Nat → Nat → Bool} {order : List Nat} {c c' : ContextMcast}
    {ret : Int} {log : List (Nat × List Nat)} (h : sendDataPackets ts draw order c = some (ret, c', log)) :
    ∃ queues depth, c' = { c with packetManager := { c.packetManager with mcastSendQueue := queues }
                                  mcastSendWrDepth := depth } := by
  refine sendDataPackets_rule (P := fun x => ∃ queues depth, x =
    { c with packetManager := { c.packetManager with mcastSendQueue := queues }, mcastSendWrDepth := depth })
    ?_ ⟨_, _, rfl⟩ h
  rintro x sid x' r ⟨queues, depth, rfl⟩ hs
  obtain ⟨rfl, -⟩ | ⟨e, ptr, q, q', depth', -, -, -, -, -, rfl⟩ := sendSession_some hs
  · exact ⟨queues, depth, rfl⟩
  · exact ⟨_, depth', rfl⟩

/-! ### Events -/

/-- The session a call opens: `send` wants a group, `receive` a peer. -/
def opens (c : ContextMcast) : Event → Option Nat
  | .send p _ => (c.controller.getMulticastContext p).bind fun _ => c.controller.findSession p 0
  | .receive p _ =>
    match c.controller.getMulticastContext p with
    | some _ => none
    | none => c.controller.findSession p 0
  | _ => none

theorem opens_some {c : ContextMcast} {e : Event} {sid : Nat} (h : opens c e = some sid) :
    ∃ p, c.controller.findSession p 0 = some sid := by
  cases e with
  | send p bufs =>
    obtain ⟨g, -, hf⟩ := Option.bind_eq_some_iff.1 h
    exact ⟨p, hf⟩
  | receive p bufs =>
    simp only [opens] at h
    split at h
    · cases h
    · exact ⟨p, h⟩
  | _ => cases h

/-- Everything an event can do, one constructor for each way it can go. -/
inductive Effect (c : ContextMcast) : Event → ContextMcast → Prop
  | ignored {e : Event} (h : opens c e = none) : Effect c e c
  | connected {p : String} {g : BitVec 128} {Q ext : List Nat} {created : Bool} {st : EndpointStore}
      (hst : st.outstanding = c.endpointStore.outstanding) :
      Effect c (.setupConnection p g Q ext created) { c with endpointStore := st }
  | registered {p : String} {g : BitVec 128} {Q ext : List Nat} {created : Bool} {st : EndpointStore}
      (hst : st.outstanding = c.endpointStore.outstanding) (hp : p ≠ "") :
      Effect c (.setupConnection p g Q ext created)
        { c with endpointStore := st, controller := c.controller.registerNode p g ext }
  | joined {addr : String} {constructed registered : Bool} {pool : PacketBufferPool}
      {info : String → Option (List PacketHandle)} {depth : String → Int} :
      Effect c (.joinMulticast addr constructed registered)
        { c with
          controller := (c.controller.joinMulticast addr constructed).2
          packetManager := { c.packetManager with pool := pool }
          multicastRecvInfoMap := info
          mcastSendWrDepth := depth }
  | left {addr : String} {pool : PacketBufferPool} {info : String → Option (List PacketHandle)} :
      Effect c (.leaveMulticast addr)
        { c with
          controller := (c.controller.leaveMulticast addr).2
          packetManager := { c.packetManager with pool := pool }
          multicastRecvInfoMap := info }
  | replicasSet {addr : String} {peers : List String} {g : RdmaMulticastContext}
      (hg : c.controller.getMulticastContext addr = some g) :
      Effect c (.setMulticastReplicas addr peers)
        { c with
          controller := c.controller.setReplicas addr g peers
          packetManager := (c.packetManager.setMulticastReplicaNum g.groupId peers.length).2 }
  | refused {e : Event} {sid : Nat} {r : Int} {core : Core} (h : opens c e = some sid)
      (ho : c.openSession sid = some (r, core)) (hr : r ≠ 0) : Effect c e { c with toCore := core }
  | sendPushed {p : String} {bufs : List Buffer} {g : RdmaMulticastContext} {sid ptr sn : Nat} {c1 core : Core}
      {x : SessionInfo} {q q' : McastSendQueue} {ret : Int} {pool : PacketBufferPool}
      (hg : c.controller.getMulticastContext p = some g) (hf : c.controller.findSession p 0 = some sid)
      (ho : c.openSession sid = some (0, c1)) (hx : c1.activeSessionMap.lookup sid = some x)
      (hptr : x.mcastSendQueue = some ptr) (hq : c1.packetManager.mcastSendQueue ptr = some q)
      (hpush : q.push bufs c1.packetManager.pool = some (ret, sn, q', pool))
      (h : c1.Pushed ({ c1.packetManager with pool := pool }.setMcastSendQueue ptr q') ret ⟨sid, sn, true, ptr⟩ core) :
      Effect c (.send p bufs) { c with toCore := core }
  | receivePushed {p : String} {bufs : List Buffer} {sid ptr sn : Nat} {c1 core : Core} {x : SessionInfo}
      {q q' : ReceiveQueue} {ret : Int} (hg : c.controller.getMulticastContext p = none)
      (hf : c.controller.findSession p 0 = some sid) (ho : c.openSession sid = some (0, c1))
      (hx : c1.activeSessionMap.lookup sid = some x) (hptr : x.receiveQueue = some ptr)
      (hq : c1.packetManager.receiveQueue ptr = some q) (hpush : q.push bufs = some (ret, sn, q'))
      (h : c1.Pushed (c1.packetManager.setReceiveQueue ptr q') ret ⟨sid, sn, false, ptr⟩ core) :
      Effect c (.receive p bufs) { c with toCore := core }
  | freed {id : Nat} : Effect c (.freeTask id) { c with taskMap := Function.update c.taskMap id none }
  | acksSent {order : List (Nat × Post)} {ret : Int} {core : Core}
      (h : sendAcks (·.wndSize) true order c.toCore = some (ret, core)) :
      Effect c (.sendAcks order) { c with toCore := core }
  | dataSent {ts : Nat} {order : List Nat} {draw : Nat → Nat → Bool} {ret : Int} {c' : ContextMcast}
      {log : List (Nat × List Nat)} (h : sendDataPackets ts draw order c = some (ret, c', log)) :
      Effect c (.sendData ts order draw) c'
  | dataArrived {ts : Nat} {a : Arrival} {addr : Option String} {p : Packet} {sid ptr : Nat} {x : SessionInfo}
      {q : ReceiveQueue} {core : Core} (hp : a.packet = some p)
      (hsid : sessionOf c.toCore a addr p.session = some (some sid)) (hx : c.activeSessionMap.lookup sid = some x)
      (hptr : x.receiveQueue = some ptr) (hq : c.packetManager.receiveQueue ptr = some q)
      (h : c.receiveData sid ptr x q p = some core) : Effect c (.arrive ts a addr) { c with toCore := core }
  | ackArrived {ts : Nat} {a : Arrival} {addr : Option String} {p : Packet} {sid ptr : Nat} {x : SessionInfo}
      {q : McastSendQueue} {core : Core} (hp : a.packet = some p) (hcmd : p.cmd ≠ pktCmdData)
      (hsid : sessionOf c.toCore a addr p.session = some (some sid))
      (hx : c.activeSessionMap.lookup (c.controller.redirectMulticast sid).1 = some x)
      (hptr : x.mcastSendQueue = some ptr) (hq : c.packetManager.mcastSendQueue ptr = some q)
      (h : receiveAck c.toCore ts (c.controller.redirectMulticast sid).1 ptr x q
        (c.controller.redirectMulticast sid).2 p = some core) : Effect c (.arrive ts a addr) { c with toCore := core }
  | completed {r : Nat × Request} : Effect c (.sent r) { c with toCore := c.toCore.completeSend r }
  | mcastCompleted {addr : String} : Effect c (.mcastSent addr) (c.completeMcastSend addr)

theorem effect {c c' : ContextMcast} {e : Event} (hs : step c e = some c') : Effect c e c' := by
  cases e with
  | setupConnection p g Q ext created =>
    cases hs
    have hst := c.endpointStore.setupConnection_outstanding p Q created
    obtain ⟨st, rfl, he | ⟨hp, he⟩⟩ := setupConnection_cases c.toCore p g Q ext created
    · simp only [he]; exact .connected hst
    · simp only [he]; exact .registered hst hp
  | joinMulticast addr constructed registered =>
    cases hs
    obtain he | ⟨handles, pool, he⟩ := joinMulticast_cases c addr constructed registered
    · rw [he]; exact .joined
    · rw [he]; exact .joined
  | leaveMulticast addr =>
    obtain ⟨⟨ret, c1⟩, hx, rfl⟩ := Option.map_eq_some_iff.1 hs
    obtain ⟨pool, info, rfl⟩ := leaveMulticast_some hx
    exact .left
  | setMulticastReplicas addr peers =>
    cases hs
    obtain ⟨-, he⟩ | ⟨g, hg, he⟩ := setMulticastReplicas_cases c addr peers
    · rw [he]; exact .ignored rfl
    · rw [he]; exact .replicasSet hg
  | send p bufs =>
    obtain ⟨⟨ret, c2⟩, hx, rfl⟩ := Option.map_eq_some_iff.1 hs
    obtain ⟨hg, -, rfl⟩ | ⟨g, sid, r, c1, hg, hf, ho, ⟨hr, -, rfl⟩ | ⟨rfl, core, hp, rfl⟩⟩ := send_some hx
    · exact .ignored (by simp [opens, hg])
    · exact .refused (by simp [opens, hg, hf]) ho hr
    · obtain ⟨x, ptr, q, ret, sn, q', pool, hx, hptr, hq, hpush, h⟩ := pushMcastSend_some hp
      exact .sendPushed hg hf ho hx hptr hq hpush h
  | receive p bufs =>
    obtain ⟨⟨ret, c2⟩, hx, rfl⟩ := Option.map_eq_some_iff.1 hs
    obtain ⟨-, rfl, hno⟩ | ⟨sid, r, c1, hg, hf, ho, ⟨hr, -, rfl⟩ | ⟨rfl, core, hp, rfl⟩⟩ := receive_some hx
    · refine .ignored ?_
      rcases hno with ⟨g, hg⟩ | hf
      · simp [opens, hg]
      · simp only [opens, hf]
        split
        · rfl
        · rfl
    · exact .refused (by simp [opens, hg, hf]) ho hr
    · obtain ⟨x, ptr, q, ret, sn, q', hx, hptr, hq, hpush, h⟩ := pushReceive_some hp
      exact .receivePushed hg hf ho hx hptr hq hpush h
  | freeTask id =>
    cases hs
    obtain he | he := freeTask_cases c.toCore id
    · simp only [he]; exact .ignored rfl
    · simp only [he]; exact .freed
  | sendAcks order =>
    obtain ⟨⟨ret, c1⟩, hx, rfl⟩ := Option.map_eq_some_iff.1 hs
    obtain ⟨⟨ret', core⟩, h, hy⟩ := Option.map_eq_some_iff.1 hx
    cases hy
    exact .acksSent h
  | sendData ts order draw =>
    obtain ⟨⟨ret, c2, log⟩, h, rfl⟩ := Option.map_eq_some_iff.1 hs
    exact .dataSent h
  | arrive ts a addr =>
    obtain ⟨core, hx, rfl⟩ := Option.map_eq_some_iff.1 hs
    obtain rfl | ⟨p, sid, hp, hsid, ⟨-, hd⟩ | ⟨hcmd, ha⟩⟩ := processReceivedPacket_some hx
    · exact .ignored rfl
    · obtain ⟨x, ptr, q, hx, hptr, hq, ⟨-, rfl⟩ | ⟨-, h⟩⟩ := processData_some hd
      · exact .ignored rfl
      · exact .dataArrived hp hsid hx hptr hq h
    · obtain ⟨x, ptr, q, hx, hptr, hq, h⟩ := processAck_some ha
      exact .ackArrived hp hcmd hsid hx hptr hq h
  | sent r => cases hs; exact .completed
  | mcastSent addr => cases hs; exact .mcastCompleted

/-! ### The controller and the timer -/

/-- What an event can do to the controller. -/
inductive ControllerStep (c : Controller) : Event → Controller → Prop
  | same {e : Event} : ControllerStep c e c
  | register {p : String} {g : BitVec 128} {Q ext : List Nat} {created : Bool} :
      ControllerStep c (.setupConnection p g Q ext created) (c.registerNode p g ext)
  | join {addr : String} {constructed registered : Bool} :
      ControllerStep c (.joinMulticast addr constructed registered) (c.joinMulticast addr constructed).2
  | leave {addr : String} : ControllerStep c (.leaveMulticast addr) (c.leaveMulticast addr).2
  | replicas {addr : String} {peers : List String} {g : RdmaMulticastContext} :
      c.getMulticastContext addr = some g →
      ControllerStep c (.setMulticastReplicas addr peers) (c.setReplicas addr g peers)

/-- What an event does to the controller and to the timer. -/
theorem step_controller {c c' : ContextMcast} {e : Event} (hs : step c e = some c') :
    ControllerStep c.controller e c'.controller ∧
      (c'.recvRto = c.recvRto ∨ (kMinRTO ≤ c'.recvRto ∧ c'.recvRto ≤ kMaxRTO)) := by
  cases effect hs with
  | registered => exact ⟨.register, .inl rfl⟩
  | joined => exact ⟨.join, .inl rfl⟩
  | left => exact ⟨.leave, .inl rfl⟩
  | replicasSet hg => exact ⟨.replicas hg, .inl rfl⟩
  | refused _ ho =>
    obtain ⟨h1, h2⟩ := openSession_frame ho
    exact ⟨h1 ▸ .same, .inl h2⟩
  | sendPushed _ _ ho _ _ _ _ h =>
    obtain ⟨h1, h2⟩ := openSession_frame ho
    exact ⟨h.controller.trans h1 ▸ .same, .inl (h.recvRto.trans h2)⟩
  | receivePushed _ _ ho _ _ _ _ h =>
    obtain ⟨h1, h2⟩ := openSession_frame ho
    exact ⟨h.controller.trans h1 ▸ .same, .inl (h.recvRto.trans h2)⟩
  | acksSent h =>
    obtain ⟨-, st, m, rfl⟩ := sendAcks_frame h
    exact ⟨.same, .inl rfl⟩
  | dataSent h =>
    obtain ⟨queues, depth, rfl⟩ := sendDataPackets_frame h
    exact ⟨.same, .inl rfl⟩
  | dataArrived _ _ _ _ _ h =>
    obtain ⟨q', mv, mem, -, rfl⟩ := receiveData_some h
    exact ⟨.same, .inl rfl⟩
  | ackArrived _ _ _ _ _ _ h =>
    obtain ⟨cwnd, incr, srtt, rttval, rfl⟩ := receiveAck_some h
    exact ⟨.same, .inr ⟨le_min (le_max_left _ _) (by decide), min_le_right _ _⟩⟩
  | @completed r =>
    obtain ⟨-, st, m, he⟩ := completeSend_frame c.toCore r
    rw [he]
    exact ⟨.same, .inl rfl⟩
  | _ => exact ⟨.same, .inl rfl⟩

end ContextMcast

end RapidTransfer
