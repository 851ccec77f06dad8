/-
What `Context` and `ContextMcast` have in common: the packet manager with its queues, the sessions,
tasks and timers, and the functions both classes write out alike. Where the two differ, the common
function takes the difference as a parameter and each class instantiates it.

A queue pointer is the number of the session whose queue it points to, `none` when it is null; a
null dereference, a failed assertion and a call of `abort` end the process, which is `none`.
-/
import RapidTransfer.Queue.Receive
import RapidTransfer.Controller.Basic
import RapidTransfer.Context.Endpoint

namespace RapidTransfer

/-! ## The packet manager -/

/-- `PacketManager`; `raw` is what the memory of a fresh `PacketHandle` holds. -/
structure PacketManager where
  mtuSize : Nat
  queueCapacity : Nat
  wndSize : Nat
  raw : PacketHandle
  pool : PacketBufferPool
  sendQueue : Nat → Option SendQueue
  receiveQueue : Nat → Option ReceiveQueue
  mcastSendQueue : Nat → Option McastSendQueue
  mcastReplicaNum : Nat → Option Nat

/-- `PacketManager::kWndSize` -/
def kWndSize : Nat := 64

namespace PacketManager

def construct (raw : PacketHandle) (mtuSize maxPackets queueCapacity : Nat) : PacketManager :=
  { mtuSize := mtuSize, queueCapacity := queueCapacity, wndSize := kWndSize, raw := raw,
    pool := PacketBufferPool.construct maxPackets, sendQueue := fun _ => none, receiveQueue := fun _ => none,
    mcastSendQueue := fun _ => none, mcastReplicaNum := fun _ => none }

def setSendQueue (m : PacketManager) (sid : Nat) (q : SendQueue) : PacketManager :=
  { m with sendQueue := Function.update m.sendQueue sid (some q) }

def setReceiveQueue (m : PacketManager) (sid : Nat) (q : ReceiveQueue) : PacketManager :=
  { m with receiveQueue := Function.update m.receiveQueue sid (some q) }

def setMcastSendQueue (m : PacketManager) (sid : Nat) (q : McastSendQueue) : PacketManager :=
  { m with mcastSendQueue := Function.update m.mcastSendQueue sid (some q) }

/-- `getSendQueue` makes sure the session has its queue. -/
def getSendQueue (m : PacketManager) (sid : Nat) : Option PacketManager :=
  match m.sendQueue sid with
  | some _ => some m
  | none =>
    (SendQueue.construct m.raw m.mtuSize m.queueCapacity m.wndSize (sid % 256)).map fun q => m.setSendQueue sid q

def getReceiveQueue (m : PacketManager) (sid : Nat) : Option PacketManager :=
  match m.receiveQueue sid with
  | some _ => some m
  | none =>
    (ReceiveQueue.construct m.mtuSize m.queueCapacity m.wndSize (sid % 256)).map fun q => m.setReceiveQueue sid q

/-- `getMcastSendQueue`: reading `mcast_replica_num_` of an unknown group stores a zero there. -/
def getMcastSendQueue (m : PacketManager) (sid : Nat) : Option PacketManager :=
  match m.mcastSendQueue sid with
  | some _ => some m
  | none =>
    let replicaNum := (m.mcastReplicaNum (sid / 256)).getD 0
    let m := { m with mcastReplicaNum := Function.update m.mcastReplicaNum (sid / 256) (some replicaNum) }
    (McastSendQueue.construct m.raw m.mtuSize m.queueCapacity m.wndSize (sid % 256) replicaNum).map fun q =>
      m.setMcastSendQueue sid q

def setMulticastReplicaNum (m : PacketManager) (groupId replicaNum : Nat) : Int × PacketManager :=
  match m.mcastReplicaNum groupId with
  | some _ => (-1, m)
  | none => (0, { m with mcastReplicaNum := Function.update m.mcastReplicaNum groupId (some replicaNum) })

/-- `SessionInfo::setup`: the three queues of a session. -/
def setup (m : PacketManager) (sid : Nat) : Option PacketManager :=
  ((m.getSendQueue sid).bind (·.getReceiveQueue sid)).bind (·.getMcastSendQueue sid)

/-- Allocates a list of receive handles, `none` when one of the allocations fails. -/
def allocateMany (p : PacketBufferPool) : Nat → Option (List PacketHandle × PacketBufferPool)
  | 0 => some ([], p)
  | n + 1 =>
    match p.allocatePacket true with
    | none => none
    | some (h, p) => (allocateMany p n).map fun r => (h :: r.1, r.2)

end PacketManager

/-! ## Sessions and tasks -/

structure SessionInfo where
  ackHandle : PacketHandle
  sendPackets : Nat
  recvPackets : Nat
  ackPackets : Nat
  cwnd : Nat
  rwnd : Nat
  ssthresh : Nat
  incr : Nat
  sendQueue : Option Nat
  receiveQueue : Option Nat
  mcastSendQueue : Option Nat
  lastSendTs : Nat

def kMinSSThreshValue : Nat := 2

def SessionInfo.construct (raw : PacketHandle) : SessionInfo :=
  { ackHandle := PacketHandle.construct raw, sendPackets := 0, recvPackets := 0, ackPackets := 0, cwnd := 1,
    rwnd := kWndSize, ssthresh := kMinSSThreshValue, incr := 0, sendQueue := none, receiveQueue := none,
    mcastSendQueue := none, lastSendTs := 0 }

structure Task where
  session : Nat
  lastSn : Nat
  isSend : Bool
  queue : Nat
  deriving DecidableEq, Repr

inductive Status
  | unknown
  | pending
  | success
  | failed
  deriving DecidableEq, Repr

/-- The comparison of `getStatus`, on 24-bit numbers. -/
def statusOf (lastSn ackSn nextSn : Nat) : Status :=
  if ackSn ≤ nextSn then (if lastSn ≤ ackSn then .success else .pending)
  else (if nextSn ≤ lastSn then .success else .pending)

/-! ## The common state -/

structure Core where
  mtuSize : Nat
  controller : Controller
  endpointStore : EndpointStore
  packetManager : PacketManager
  taskMap : Nat → Option Task
  nextTaskId : Nat
  activeSessionMap : AList fun _ : Nat => SessionInfo
  recvSrtt : Nat
  recvRttval : Nat
  recvRto : Nat
  mem : Nat → UInt8

namespace Core

/-- The packets a context keeps posted for receiving. -/
def kNumReceiveHandles : Nat := 128

/-- The parameters of a context: the device, the sizes, and the memory it finds. -/
structure Config where
  raw : PacketHandle
  bond : Bool
  numQp : Nat
  maxWrPerQp : Int
  mtuSize : Nat
  maxPackets : Nat
  queueCapacity : Nat
  mem : Nat → UInt8

/-- The constructors and `construct`, `none` when it reports an error or divides by the number of
queue pairs. -/
def construct (defaultRto : Nat) (cfg : Config) : Option Core :=
  let mgr := PacketManager.construct cfg.raw cfg.mtuSize cfg.maxPackets cfg.queueCapacity
  (if cfg.numQp = 0 then none else PacketManager.allocateMany mgr.pool kNumReceiveHandles).map fun r =>
    { mtuSize := cfg.mtuSize % 2 ^ 32, controller := Controller.construct cfg.bond,
      endpointStore := EndpointStore.construct cfg.numQp cfg.maxWrPerQp, packetManager := { mgr with pool := r.2 },
      taskMap := fun _ => none, nextTaskId := 0, activeSessionMap := ∅, recvSrtt := 0, recvRttval := 0,
      recvRto := defaultRto, mem := cfg.mem }

/-- A context with fragments of two bytes, one queue pair of two requests, and no spare room in the
queues. -/
def smallConfig (maxPackets : Nat) : Config :=
  { raw := ⟨0, 0, 0, 0, 0, false, false, false, none, 0, 0⟩, bond := false, numQp := 1, maxWrPerQp := 2,
    mtuSize := 50, maxPackets := maxPackets, queueCapacity := kWndSize, mem := fun _ => 0 }

def setSession (c : Core) (sid : Nat) (e : SessionInfo) : Core :=
  { c with activeSessionMap := c.activeSessionMap.insert sid e }

/-- The first part of `send` and `receive`: a session that does not exist is created. The subscript
in `allocatePacket(active_session_map_[session].ack_handle)` has made the entry before the
allocation can fail. -/
def openSession (c : Core) (sid : Nat) : Option (Int × Core) :=
  match c.activeSessionMap.lookup sid with
  | some _ => some (0, c)
  | none =>
    let e := SessionInfo.construct c.packetManager.raw
    match c.packetManager.pool.allocatePacket false with
    | none => some (-1, c.setSession sid e)
    | some (h, pool) =>
      (PacketManager.setup { c.packetManager with pool := pool } sid).map fun mgr =>
        (0, { c with packetManager := mgr }.setSession sid
          { e with ackHandle := h, sendQueue := some sid, receiveQueue := some sid, mcastSendQueue := some sid })

/-- A task for buffers that were queued. `next_task_id_` is an `int` that wraps around, kept here without its sign:
after `2^32` tasks an id is given again, and the task that has it then takes the place of the one that had it. -/
def addTask (c : Core) (t : Task) : Int × Core :=
  (Int.bmod c.nextTaskId (2 ^ 32),
    { c with
      nextTaskId := (c.nextTaskId + 1) % 2 ^ 32
      taskMap := Function.update c.taskMap c.nextTaskId (some t) })

/-- The second part of a unicast `send`. -/
def pushSend (c : Core) (sid : Nat) (bufs : List Buffer) : Option (Int × Core) :=
  match (c.activeSessionMap.lookup sid).bind (·.sendQueue) with
  | none => none
  | some ptr =>
    match c.packetManager.sendQueue ptr with
    | none => none
    | some q =>
      match q.push bufs c.packetManager.pool with
      | none => none
      | some (ret, lastSn, q, pool) =>
        let c := { c with packetManager := { c.packetManager with pool := pool }.setSendQueue ptr q }
        some (if ret = 0 then c.addTask ⟨sid, lastSn, true, ptr⟩ else (ret, c))

/-- The second part of a multicast `send`. -/
def pushMcastSend (c : Core) (sid : Nat) (bufs : List Buffer) : Option (Int × Core) :=
  match (c.activeSessionMap.lookup sid).bind (·.mcastSendQueue) with
  | none => none
  | some ptr =>
    match c.packetManager.mcastSendQueue ptr with
    | none => none
    | some q =>
      match q.push bufs c.packetManager.pool with
      | none => none
      | some (ret, lastSn, q, pool) =>
        let c := { c with packetManager := { c.packetManager with pool := pool }.setMcastSendQueue ptr q }
        some (if ret = 0 then c.addTask ⟨sid, lastSn, true, ptr⟩ else (ret, c))

/-- The second part of `receive`. -/
def pushReceive (c : Core) (sid : Nat) (bufs : List Buffer) : Option (Int × Core) :=
  match (c.activeSessionMap.lookup sid).bind (·.receiveQueue) with
  | none => none
  | some ptr =>
    match c.packetManager.receiveQueue ptr with
    | none => none
    | some q =>
      match q.push bufs with
      | none => none
      | some (ret, lastSn, q) =>
        let c := { c with packetManager := c.packetManager.setReceiveQueue ptr q }
        some (if ret = 0 then c.addTask ⟨sid, lastSn, false, ptr⟩ else (ret, c))

def freeTask (c : Core) (taskId : Nat) : Int × Core :=
  match c.taskMap taskId with
  | none => (-1, c)
  | some _ => (0, { c with taskMap := Function.update c.taskMap taskId none })

/-- `setupConnection`, with the attributes parsed: the endpoint's queue pairs and the longer list
that includes the multicast ones. -/
def setupConnection (c : Core) (peerAddr : String) (gid : BitVec 128) (qpNumList extQpNumList : List Nat)
    (ahCreated : Bool) : Int × Core :=
  let (ret, st) := c.endpointStore.setupConnection peerAddr qpNumList ahCreated
  let c := { c with endpointStore := st }
  if ret ≠ 0 then (ret, c)
  else (0, { c with controller := c.controller.registerNode peerAddr gid extQpNumList })

/-- `Controller::getOrCreateEndpoint` of a session. -/
def getOrCreateEndpoint (c : Core) (sid : Nat) : Option Endpoint × Core :=
  match c.controller.peerNameRevMap (sid / 256) with
  | none => (none, c)
  | some name =>
    let (ep, st) := c.endpointStore.getOrCreateEndpoint name
    (ep, { c with endpointStore := st })

/-! ## Acknowledgements -/

/-- The header of the ACK of a session; `wnd` is what its receive queue advertises. -/
def ackHeader (sid wnd : Nat) (q : ReceiveQueue) (h : PacketHandle) : PacketHandle :=
  { h with
    session := sid % 256
    cmd := pktCmdAck
    wnd := wnd % 2 ^ 16
    sn := q.getAckSN
    ts := q.getLastTS
    inflight := true }

/-- The session owes an ACK and its handle is free. -/
def owesAck (e : SessionInfo) : Bool := decide (e.ackPackets < e.recvPackets) && !e.ackHandle.inflight

/-- Posts the ACK of one session: `ack_handle.inflight` is set before anything can fail. `oneSlice` is
the multicast class's test that the header is the only slice. -/
def postAck (wnd : ReceiveQueue → Nat) (oneSlice : Bool) (c : Core) (sid : Nat) (e : SessionInfo) (q : ReceiveQueue)
    (p : Post) : Option (Int × Core) :=
  let handle := ackHeader sid (wnd q) q e.ackHandle
  let c := c.setSession sid { e with ackHandle := handle }
  match handle.serialize with
  | none => some (-1, c)
  | some (slices, _) =>
    if oneSlice ∧ slices.length ≠ 1 then some (-1, c)
    else
      match c.getOrCreateEndpoint sid with
      | (none, c) => some (-1, c)
      | (some ep, c) =>
        match c.endpointStore.postSendRequest ep [⟨some sid⟩] p with
        | none => none
        | some (ret, st) =>
          let c := { c with endpointStore := st }
          if ret ≠ 1 then some (-1, c)
          else some (0, c.setSession sid { e with ackHandle := handle, ackPackets := e.recvPackets })

/-- `sendAckPackets` over the sessions in the order the map yields them, each with the draw of its
post. -/
def sendAcks (wnd : ReceiveQueue → Nat) (oneSlice : Bool) : List (Nat × Post) → Core → Option (Int × Core)
  | [], c => some (0, c)
  | (sid, p) :: rest, c =>
    match c.activeSessionMap.lookup sid with
    | none => none
    | some e =>
      match e.receiveQueue.bind c.packetManager.receiveQueue with
      | none => none
      | some q =>
        if owesAck e then
          match postAck wnd oneSlice c sid e q p with
          | none => none
          | some (ret, c) => if ret ≠ 0 then some (ret, c) else sendAcks wnd oneSlice rest c
        else sendAcks wnd oneSlice rest c

/-- The completion of a send: an ACK handle is free again. -/
def completeSend (c : Core) (r : Nat × Request) : Core :=
  let c := { c with endpointStore := c.endpointStore.complete r }
  match r.2.context with
  | none => c
  | some sid =>
    match c.activeSessionMap.lookup sid with
    | none => c
    | some e =>
      if e.ackHandle.cmd = pktCmdAck then
        c.setSession sid { e with ackHandle := { e.ackHandle with inflight := false } }
      else c

/-! ## Timers and windows -/

/-- `updateRTO` with the bounds of the class. -/
def updateRTO (kMinRTO kMaxRTO : Nat) (c : Core) (rtt : Nat) : Core :=
  let (srtt, rttval) :=
    if c.recvSrtt = 0 then (rtt, rtt / 2)
    else
      let delta := max rtt c.recvSrtt - min rtt c.recvSrtt
      (max ((7 * c.recvSrtt + rtt) / 8) 1, (3 * c.recvRttval + delta) / 4)
  { c with recvSrtt := srtt, recvRttval := rttval, recvRto := min (max kMinRTO (srtt + 4 * rttval)) kMaxRTO }

/-- The growth of the window on an ACK, in 32-bit arithmetic; `none` is a division by zero. -/
def growWindow (mtuSize : Nat) (e : SessionInfo) : Option SessionInfo :=
  if e.cwnd < e.ssthresh then
    some { e with cwnd := (e.cwnd + 1) % 2 ^ 32, incr := (e.incr + mtuSize) % 2 ^ 32 }
  else
    let incr := max e.incr mtuSize
    if incr = 0 then none
    else
      let incr := (incr + mtuSize * mtuSize % 2 ^ 32 / incr + mtuSize / 16) % 2 ^ 32
      if (e.cwnd + 1) * mtuSize % 2 ^ 32 ≤ incr then
        if mtuSize = 0 then none
        else some { e with incr := incr, cwnd := (incr + mtuSize - 1) % 2 ^ 32 / mtuSize }
      else some { e with incr := incr }

/-- `updateWndOnSuccess` on the session entry. -/
def onSuccess (mtuSize rwnd : Nat) (e : SessionInfo) : Option SessionInfo :=
  (growWindow mtuSize e).map fun e => { e with rwnd := rwnd, cwnd := min rwnd e.cwnd }

/-! ## Received packets -/

/-- A receive completion: where the packet came from, its immediate and the bytes the NIC wrote. -/
structure Arrival where
  gid : BitVec 128
  srcQp : Nat
  immData : Option Nat
  bytes : List UInt8

/-- The packet of a completion; without an immediate it counts as zero. -/
def Arrival.packet (a : Arrival) : Option Packet := deserialize (a.immData.getD 0) a.bytes

/-- A DATA packet reaches the receive queue of its session and is counted. -/
def receiveData (c : Core) (sid ptr : Nat) (e : SessionInfo) (q : ReceiveQueue) (p : Packet) : Option Core :=
  match q.markCompleted p with
  | none => none
  | some (q, mv) =>
    let c := { c with packetManager := c.packetManager.setReceiveQueue ptr q, mem := (mv.elim c.mem (·.apply c.mem)) }
    some (c.setSession sid { e with recvPackets := e.recvPackets + 1 })

/-- The round-trip time of an ACK, in the 48 bits of the wire. -/
def rttOf (currentTs ts : Nat) : Nat := sub64 currentTs ts % 2 ^ 48

/-- The window of a queue follows the session's. -/
def followWnd (r : SendRing) (cwnd : Nat) : SendRing := if r.wndSize ≠ cwnd then r.setWndSize cwnd else r

end Core

end RapidTransfer
