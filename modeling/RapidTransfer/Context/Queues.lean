/-
The queues and the tasks of a context over whole runs. A property of send queues that a new queue has, and that
every operation on a send queue keeps, holds of all send queues of every state a run reaches; the same
for receive queues and for the multicast ones. `SendRule`, `ReceiveRule` and `McastRule` say what is to be
shown of one queue, and each context has one lemma for each that carries the property through an event.
`SendMapRule` and `ReceiveMapRule` are the same for a property of the whole map.
`TaskStep` is what every event does to the tasks.
-/
import RapidTransfer.Context.Creation

namespace RapidTransfer

/-- Every queue of the map has the property. -/
def Queues {α : Type} (S : α → Prop) (m : Nat → Option α) : Prop := ∀ k q, m k = some q → S q

namespace Queues

variable {α : Type} {S : α → Prop} {m : Nat → Option α}

theorem update (h : Queues S m) (k : Nat) {q : α} (hq : S q) : Queues S (Function.update m k (some q)) := by
  intro j x hx
  by_cases hj : j = k
  · subst hj
    rw [Function.update_self] at hx
    cases hx
    exact hq
  · rw [Function.update_of_ne hj] at hx
    exact h j x hx

theorem none : Queues S fun _ => none := fun _ _ h => nomatch h

/-- One queue of the map is followed: another may be made. -/
theorem exists_insert {k j : Nat} (h : ∃ x, m k = some x ∧ S x) (hj : m j = .none) (q : α) :
    ∃ x, Function.update m j (some q) k = some x ∧ S x := by
  obtain ⟨x, hx, hS⟩ := h
  have hne : k ≠ j := by
    rintro rfl
    rw [hj] at hx; cases hx
  exact ⟨x, by rw [Function.update_of_ne hne]; exact hx, hS⟩

/-- One queue of the map is followed: it may itself be changed. -/
theorem exists_update {k j : Nat} {q q' : α} (h : ∃ x, m k = some x ∧ S x) (hq : m j = some q) (hS : S q → S q') :
    ∃ x, Function.update m j (some q') k = some x ∧ S x := by
  obtain ⟨x, hx, hSx⟩ := h
  by_cases hk : k = j
  · subst hk
    rw [hq] at hx; cases hx
    exact ⟨q', Function.update_self _ _ _, hS hSx⟩
  · exact ⟨x, by rw [Function.update_of_ne hk]; exact hx, hSx⟩

end Queues

/-- What a property of send queues has to respect, for pushes that are `allowed`. -/
structure SendRule (allowed : SendQueue → List Buffer → Prop) (S : SendQueue → Prop) : Prop where
  construct : ∀ {raw mtu cap wnd session q}, SendQueue.construct raw mtu cap wnd session = some q → S q
  push : ∀ {q bufs pool ret sn q' pool'}, S q → allowed q bufs → q.push bufs pool = some (ret, sn, q', pool') → S q'
  ack : ∀ {q sn} pool, S q → sn < 2 ^ 24 → S (q.markCompleted sn pool).2.1
  restamp : ∀ {q q'}, S q → q'.tail = q.tail → q.ring.Restamped q'.ring → S q'

structure ReceiveRule (allowed : ReceiveQueue → List Buffer → Prop) (S : ReceiveQueue → Prop) : Prop where
  construct : ∀ {mtu cap wnd session q}, ReceiveQueue.construct mtu cap wnd session = some q → S q
  push : ∀ {q bufs ret sn q'}, S q → allowed q bufs → q.push bufs = some (ret, sn, q') → S q'
  data : ∀ {q p q' mv}, S q → q.markCompleted p = some (q', mv) → S q'

structure McastRule (allowed : McastSendQueue → List Buffer → Prop) (S : McastSendQueue → Prop) : Prop where
  construct : ∀ {raw mtu cap wnd session n q}, McastSendQueue.construct raw mtu cap wnd session n = some q → S q
  push : ∀ {q bufs pool ret sn q' pool'}, S q → allowed q bufs → q.push bufs pool = some (ret, sn, q', pool') → S q'
  ack : ∀ {q sn} index pool, S q → sn < 2 ^ 24 → S (q.markCompleted index sn pool).2.1
  restamp : ∀ {q q'}, S q → q'.tailList = q.tailList → q.ring.Restamped q'.ring → S q'

/-- What a property of the whole map of send queues has to respect: `SendRule` is the case of a property that
every queue has. -/
structure SendMapRule (allowed : SendQueue → List Buffer → Prop) (P : (Nat → Option SendQueue) → Prop) : Prop where
  construct : ∀ {m k raw mtu cap wnd session q}, P m → m k = none →
    SendQueue.construct raw mtu cap wnd session = some q → P (Function.update m k (some q))
  push : ∀ {m k q bufs pool ret sn q' pool'}, P m → m k = some q → allowed q bufs →
    q.push bufs pool = some (ret, sn, q', pool') → P (Function.update m k (some q'))
  ack : ∀ {m k q sn} pool, P m → m k = some q → sn < 2 ^ 24 →
    P (Function.update m k (some (q.markCompleted sn pool).2.1))
  restamp : ∀ {m k q q'}, P m → m k = some q → q'.tail = q.tail → q.ring.Restamped q'.ring →
    P (Function.update m k (some q'))

structure ReceiveMapRule (allowed : ReceiveQueue → List Buffer → Prop) (P : (Nat → Option ReceiveQueue) → Prop) :
    Prop where
  construct : ∀ {m k mtu cap wnd session q}, P m → m k = none →
    ReceiveQueue.construct mtu cap wnd session = some q → P (Function.update m k (some q))
  push : ∀ {m k q bufs ret sn q'}, P m → m k = some q → allowed q bufs → q.push bufs = some (ret, sn, q') →
    P (Function.update m k (some q'))
  data : ∀ {m k q p q' mv}, P m → m k = some q → q.markCompleted p = some (q', mv) → P (Function.update m k (some q'))

theorem SendRule.toMap {allowed : SendQueue → List Buffer → Prop} {S : SendQueue → Prop} (hr : SendRule allowed S) :
    SendMapRule allowed (Queues S) where
  construct h _ hq := h.update _ (hr.construct hq)
  push h hq ha hp := h.update _ (hr.push (h _ _ hq) ha hp)
  ack pool h hq hsn := h.update _ (hr.ack pool (h _ _ hq) hsn)
  restamp h hq ht hring := h.update _ (hr.restamp (h _ _ hq) ht hring)

theorem ReceiveRule.toMap {allowed : ReceiveQueue → List Buffer → Prop} {S : ReceiveQueue → Prop}
    (hr : ReceiveRule allowed S) : ReceiveMapRule allowed (Queues S) where
  construct h _ hq := h.update _ (hr.construct hq)
  push h hq ha hp := h.update _ (hr.push (h _ _ hq) ha hp)
  data h hq hm := h.update _ (hr.data (h _ _ hq) hm)

/-! ## Session creation -/

namespace PacketManager

/-- What `setup` does: queues that are there stay, missing ones are constructed. -/
structure SetUp (m : PacketManager) (sid : Nat) (m' : PacketManager) : Prop where
  send : m'.sendQueue = m.sendQueue ∨ m.sendQueue sid = none ∧
    ∃ q, SendQueue.construct m.raw m.mtuSize m.queueCapacity m.wndSize (sid % 256) = some q ∧
      m'.sendQueue = Function.update m.sendQueue sid (some q)
  receive : m'.receiveQueue = m.receiveQueue ∨ m.receiveQueue sid = none ∧
    ∃ q, ReceiveQueue.construct m.mtuSize m.queueCapacity m.wndSize (sid % 256) = some q ∧
      m'.receiveQueue = Function.update m.receiveQueue sid (some q)
  mcast : (m'.mcastSendQueue = m.mcastSendQueue ∧ m'.mcastReplicaNum = m.mcastReplicaNum) ∨
    m.mcastSendQueue sid = none ∧ ∃ q, McastSendQueue.construct m.raw m.mtuSize m.queueCapacity m.wndSize (sid % 256)
        ((m.mcastReplicaNum (sid / 256)).getD 0) = some q ∧
      m'.mcastSendQueue = Function.update m.mcastSendQueue sid (some q) ∧
      m'.mcastReplicaNum =
        Function.update m.mcastReplicaNum (sid / 256) (some ((m.mcastReplicaNum (sid / 256)).getD 0))
  sendSome : (m'.sendQueue sid).isSome = true
  receiveSome : (m'.receiveQueue sid).isSome = true
  mcastSome : (m'.mcastSendQueue sid).isSome = true
  raw : m'.raw = m.raw
  mtuSize : m'.mtuSize = m.mtuSize
  queueCapacity : m'.queueCapacity = m.queueCapacity
  wndSize : m'.wndSize = m.wndSize

theorem setup_some {m m' : PacketManager} {sid : Nat} (h : m.setup sid = some m') : SetUp m sid m' := by
  obtain ⟨m2, h2, h3⟩ := Option.bind_eq_some_iff.1 h
  obtain ⟨m1, h1, h2⟩ := Option.bind_eq_some_iff.1 h2
  have hs : ∃ send, m1 = { m with sendQueue := send } ∧ (send sid).isSome = true ∧
      (send = m.sendQueue ∨ m.sendQueue sid = none ∧
        ∃ q, SendQueue.construct m.raw m.mtuSize m.queueCapacity m.wndSize (sid % 256) = some q ∧
          send = Function.update m.sendQueue sid (some q)) := by
    unfold getSendQueue at h1
    split at h1
    · rename_i q hq; cases h1; exact ⟨m.sendQueue, rfl, by rw [hq]; rfl, .inl rfl⟩
    · rename_i hn
      obtain ⟨q, hq, rfl⟩ := Option.map_eq_some_iff.1 h1
      exact ⟨_, rfl, by simp, .inr ⟨hn, q, hq, rfl⟩⟩
  obtain ⟨send, rfl, hsome, hsend⟩ := hs
  have hr : ∃ recv, m2 = { m with sendQueue := send, receiveQueue := recv } ∧ (recv sid).isSome = true ∧
      (recv = m.receiveQueue ∨ m.receiveQueue sid = none ∧
        ∃ q, ReceiveQueue.construct m.mtuSize m.queueCapacity m.wndSize (sid % 256) = some q ∧
          recv = Function.update m.receiveQueue sid (some q)) := by
    unfold getReceiveQueue at h2
    split at h2
    · rename_i q hq; cases h2; exact ⟨m.receiveQueue, rfl, by rw [show m.receiveQueue sid = _ from hq]; rfl, .inl rfl⟩
    · rename_i hn
      obtain ⟨q, hq, rfl⟩ := Option.map_eq_some_iff.1 h2
      exact ⟨_, rfl, by simp, .inr ⟨hn, q, hq, rfl⟩⟩
  obtain ⟨recv, rfl, hrsome, hrecv⟩ := hr
  unfold getMcastSendQueue at h3
  split at h3
  · rename_i q hq
    cases h3
    exact ⟨hsend, hrecv, .inl ⟨rfl, rfl⟩, hsome, hrsome, by rw [show m.mcastSendQueue sid = _ from hq]; rfl,
      rfl, rfl, rfl, rfl⟩
  · rename_i hn
    obtain ⟨q, hq, rfl⟩ := Option.map_eq_some_iff.1 h3
    exact ⟨hsend, hrecv, .inr ⟨hn, q, hq, rfl, rfl⟩, hsome, hrsome, by simp [setMcastSendQueue], rfl, rfl, rfl, rfl⟩

/-- A number is stored for the group that has none; the queues stay. -/
theorem setMulticastReplicaNum_cases (m : PacketManager) (groupId n : Nat) :
    (m.setMulticastReplicaNum groupId n).2.mcastSendQueue = m.mcastSendQueue ∧
    ∀ id, (id = groupId ∧ m.mcastReplicaNum id = none ∧
        (m.setMulticastReplicaNum groupId n).2.mcastReplicaNum id = some n) ∨
      (m.setMulticastReplicaNum groupId n).2.mcastReplicaNum id = m.mcastReplicaNum id := by
  unfold setMulticastReplicaNum
  split
  · exact ⟨rfl, fun _ => .inr rfl⟩
  · rename_i hn
    refine ⟨rfl, fun id => ?_⟩
    by_cases hid : id = groupId
    · subst hid; exact .inl ⟨rfl, hn, Function.update_self _ _ _⟩
    · exact .inr (Function.update_of_ne hid _ _)

end PacketManager

namespace Core

theorem openSession_manager {c c' : Core} {sid : Nat} {ret : Int} (h : c.openSession sid = some (ret, c')) :
    c'.packetManager = c.packetManager ∨
      ∃ pool, PacketManager.SetUp { c.packetManager with pool := pool } sid c'.packetManager := by
  obtain ⟨x, -, -, rfl⟩ | ⟨-, -, -, rfl⟩ | ⟨slot, pool, mgr, -, -, hs, -, rfl⟩ := openSession_cases h
  · exact .inl rfl
  · exact .inl rfl
  · exact .inr ⟨⟨pool⟩, PacketManager.setup_some hs⟩

/-- The queue a call on the session pushes its buffers to, once the session is opened. -/
def queueOf {α : Type} (c : Core) (sid : Nat) (ptr : SessionInfo → Option Nat)
    (queue : PacketManager → Nat → Option α) : Option α :=
  (c.openSession sid).bind fun r => ((r.2.activeSessionMap.lookup sid).bind ptr).bind (queue r.2.packetManager)

theorem queueOf_eq {α : Type} {c c1 : Core} {sid k : Nat} {ret : Int} {ptr : SessionInfo → Option Nat}
    {queue : PacketManager → Nat → Option α} {e : SessionInfo} {q : α} (ho : c.openSession sid = some (ret, c1))
    (he : c1.activeSessionMap.lookup sid = some e) (hp : ptr e = some k) (hq : queue c1.packetManager k = some q) :
    c.queueOf sid ptr queue = some q := by
  simp [queueOf, ho, he, hp, hq]

variable {c c' : Core} {sid : Nat} {ret : Int}

theorem sendMap_opened {allowed : SendQueue → List Buffer → Prop} {P : (Nat → Option SendQueue) → Prop}
    (hr : SendMapRule allowed P) (h : P c.packetManager.sendQueue) (ho : c.openSession sid = some (ret, c')) :
    P c'.packetManager.sendQueue := by
  obtain he | ⟨pool, hs⟩ := openSession_manager ho
  · rw [he]; exact h
  · obtain he | ⟨hn, q, hq, he⟩ := hs.send
    · rw [he]; exact h
    · rw [he]; exact hr.construct h hn hq

theorem receiveMap_opened {allowed : ReceiveQueue → List Buffer → Prop} {P : (Nat → Option ReceiveQueue) → Prop}
    (hr : ReceiveMapRule allowed P) (h : P c.packetManager.receiveQueue) (ho : c.openSession sid = some (ret, c')) :
    P c'.packetManager.receiveQueue := by
  obtain he | ⟨pool, hs⟩ := openSession_manager ho
  · rw [he]; exact h
  · obtain he | ⟨hn, q, hq, he⟩ := hs.receive
    · rw [he]; exact h
    · rw [he]; exact hr.construct h hn hq

theorem mcastSendQueues_opened {allowed : McastSendQueue → List Buffer → Prop} {S : McastSendQueue → Prop}
    (hr : McastRule allowed S) (h : Queues S c.packetManager.mcastSendQueue)
    (ho : c.openSession sid = some (ret, c')) : Queues S c'.packetManager.mcastSendQueue := by
  obtain he | ⟨pool, hs⟩ := openSession_manager ho
  · rw [he]; exact h
  · obtain ⟨he, -⟩ | ⟨-, q, hq, he, -⟩ := hs.mcast
    · rw [he]; exact h
    · rw [he]; exact h.update sid (hr.construct hq)

/-- The post of ACKs and the completion of a send leave the queues alone. -/
theorem sendAcks_packetManager {wnd : ReceiveQueue → Nat} {one : Bool} {order : List (Nat × Post)}
    (h : sendAcks wnd one order c = some (ret, c')) : c'.packetManager = c.packetManager := by
  obtain ⟨-, st, m, rfl⟩ := sendAcks_frame h
  rfl

theorem completeSend_packetManager (c : Core) (r : Nat × Request) :
    (c.completeSend r).packetManager = c.packetManager := by
  obtain ⟨-, st, m, he⟩ := completeSend_frame c r
  rw [he]

/-! ## Tasks -/

/-- The next id is another one, also where it wraps around. -/
theorem next_ne (id : Nat) : (id + 1) % 2 ^ 32 ≠ id := by omega

/-- What an event does to the tasks: old ones may be freed, and a push that was accepted makes a new one
with the property, under the next id and in place of a task that has it. -/
structure TaskStep (P : Task → Prop) (c c' : Core) : Prop where
  old : ∀ id, id ≠ c.nextTaskId ∨ c'.nextTaskId = c.nextTaskId → c'.taskMap id = c.taskMap id ∨ c'.taskMap id = none
  made : c'.nextTaskId ≠ c.nextTaskId → ∃ t, c'.taskMap c.nextTaskId = some t ∧ P t

namespace TaskStep

variable {P : Task → Prop}

theorem same (hn : c'.nextTaskId = c.nextTaskId) (ht : c'.taskMap = c.taskMap) : TaskStep P c c' :=
  ⟨fun id _ => .inl (by rw [ht]), fun h => absurd hn h⟩

theorem freed (c : Core) (id : Nat) : TaskStep P c { c with taskMap := Function.update c.taskMap id none } := by
  refine ⟨fun k _ => ?_, fun h => absurd rfl h⟩
  by_cases hk : k = id
  · subst hk; exact .inr (by simp)
  · exact .inl (by simp [Function.update_of_ne hk])

theorem pushed {c1 : Core} {mgr : PacketManager} {t : Task} (hn : c1.nextTaskId = c.nextTaskId)
    (ht : c1.taskMap = c.taskMap) (h : c1.Pushed mgr ret t c') (hP : P t) : TaskStep P c c' := by
  obtain ⟨-, rfl⟩ | ⟨-, rfl⟩ := h
  · refine ⟨fun id hid => .inl ?_, fun _ => ⟨t, by simp [hn], hP⟩⟩
    have hne : id ≠ c1.nextTaskId := by
      rw [hn]
      rcases hid with hid | hid
      · exact hid
      · rw [hn] at hid
        exact absurd hid (next_ne _)
    simp [Function.update_of_ne hne, ht]
  · exact .same hn ht

/-- A task keeps its record until it is freed, unless its id is given again. -/
theorem kept (h : TaskStep P c c') {id : Nat} {t : Task} (hid : id ≠ c.nextTaskId ∨ c'.nextTaskId = c.nextTaskId)
    (hx : c.taskMap id = some t ∨ c.taskMap id = none) : c'.taskMap id = some t ∨ c'.taskMap id = none := by
  rcases h.old id hid with he | he
  · rw [he]
    exact hx
  · exact .inr he

/-- The task under the id that an event has given is the one that it made. -/
theorem of_new (h : TaskStep P c c') (hne : c'.nextTaskId ≠ c.nextTaskId) {t : Task}
    (ht : c'.taskMap c.nextTaskId = some t) : P t := by
  obtain ⟨t', ht', hP⟩ := h.made hne
  rw [ht] at ht'
  cases ht'
  exact hP

end TaskStep

theorem openSession_tasks (h : c.openSession sid = some (ret, c')) :
    c'.nextTaskId = c.nextTaskId ∧ c'.taskMap = c.taskMap := by
  obtain ⟨x, -, -, rfl⟩ | ⟨-, -, -, rfl⟩ | ⟨slot, pool, mgr, -, -, -, -, rfl⟩ := openSession_cases h
  · exact ⟨rfl, rfl⟩
  · exact ⟨rfl, rfl⟩
  · exact ⟨rfl, rfl⟩

end Core

/-! ## Events of the unicast context -/

namespace Context

open RapidTransfer.Core

/-- The send queue an event pushes to, and the buffers. -/
def sendPush (c : Core) : Event → Option (SendQueue × List Buffer)
  | .send p bufs =>
    (c.controller.findSession p 0).bind fun sid => (c.queueOf sid (·.sendQueue) (·.sendQueue)).map (·, bufs)
  | _ => none

/-- The receive queue an event pushes to, and the buffers. -/
def receivePush (c : Core) : Event → Option (ReceiveQueue × List Buffer)
  | .receive p bufs =>
    (c.controller.findSession p 0).bind fun sid => (c.queueOf sid (·.receiveQueue) (·.receiveQueue)).map (·, bufs)
  | _ => none

theorem sendMap_step {allowed : SendQueue → List Buffer → Prop} {P : (Nat → Option SendQueue) → Prop}
    (hr : SendMapRule allowed P) {c c' : Core} {e : Event} (h : P c.packetManager.sendQueue)
    (hall : ∀ q bufs, sendPush c e = some (q, bufs) → allowed q bufs) (hs : step c e = some c') :
    P c'.packetManager.sendQueue := by
  cases effect hs with
  | refused _ ho => exact sendMap_opened hr h ho
  | @sendPushed p bufs sid ptr _ _ _ _ q _ _ _ hf ho hx hptr hq hpush hpu =>
    have hto : sendPush c (.send p bufs) = some (q, bufs) := by
      simp only [sendPush, hf, Option.bind_some, queueOf_eq ho hx hptr hq, Option.map_some]
    rw [hpu.packetManager]
    exact hr.push (sendMap_opened hr h ho) hq (hall q bufs hto) hpush
  | receivePushed _ ho _ _ _ _ hpu =>
    rw [hpu.packetManager]
    exact sendMap_opened hr h ho
  | acksSent hx => rw [sendAcks_packetManager hx]; exact h
  | dataSent hx =>
    refine sendDataPackets_rule (P := fun x => P x.packetManager.sendQueue) (fun x sid b x' r hP hs => ?_) h hx
    obtain rfl | ⟨e, ptr, q, q', st, ds, -, -, hq, ht, hring, -, -, rfl⟩ := sendSession_some hs
    · exact hP
    · exact hr.restamp hP hq ht hring
  | dataArrived _ _ _ _ _ hd =>
    obtain ⟨q', mv, mem, -, rfl⟩ := receiveData_some hd
    exact h
  | @ackArrived _ _ p _ ptr _ q _ hp _ _ _ hq ha =>
    obtain ⟨cwnd, incr, srtt, rttval, rfl⟩ := receiveAck_some ha
    -- the ACK and the window it sets are two changes of one queue
    let acked := (q.markCompleted p.sn c.packetManager.pool).2.1
    have hwnd : P (Function.update (Function.update c.packetManager.sendQueue ptr (some acked)) ptr
        (some { acked with ring := followWnd acked.ring cwnd })) :=
      hr.restamp (hr.ack c.packetManager.pool h hq (deserialize_bounds hp).2) (Function.update_self _ _ _) rfl
        ((SendRing.Restamped.refl _).followWnd cwnd)
    rw [Function.update_idem] at hwnd
    exact hwnd
  | completed => rw [completeSend_packetManager]; exact h
  | _ => exact h

theorem receiveMap_step {allowed : ReceiveQueue → List Buffer → Prop} {P : (Nat → Option ReceiveQueue) → Prop}
    (hr : ReceiveMapRule allowed P) {c c' : Core} {e : Event} (h : P c.packetManager.receiveQueue)
    (hall : ∀ q bufs, receivePush c e = some (q, bufs) → allowed q bufs) (hs : step c e = some c') :
    P c'.packetManager.receiveQueue := by
  cases effect hs with
  | refused _ ho => exact receiveMap_opened hr h ho
  | sendPushed _ ho _ _ _ _ hpu =>
    rw [hpu.packetManager]
    exact receiveMap_opened hr h ho
  | @receivePushed p bufs sid ptr _ _ _ _ q _ _ hf ho hx hptr hq hpush hpu =>
    have hto : receivePush c (.receive p bufs) = some (q, bufs) := by
      simp only [receivePush, hf, Option.bind_some, queueOf_eq ho hx hptr hq, Option.map_some]
    rw [hpu.packetManager]
    exact hr.push (receiveMap_opened hr h ho) hq (hall q bufs hto) hpush
  | acksSent hx => rw [sendAcks_packetManager hx]; exact h
  | dataSent hx =>
    refine sendDataPackets_rule (P := fun x => P x.packetManager.receiveQueue) (fun x sid b x' r hP hs => ?_) h hx
    obtain rfl | ⟨e, ptr, q, q', st, ds, -, -, -, -, -, -, -, rfl⟩ := sendSession_some hs
    · exact hP
    · exact hP
  | dataArrived _ _ _ _ hq hd =>
    obtain ⟨q', mv, mem, hm, rfl⟩ := receiveData_some hd
    exact hr.data h hq hm
  | ackArrived _ _ _ _ _ ha =>
    obtain ⟨cwnd, incr, srtt, rttval, rfl⟩ := receiveAck_some ha
    exact h
  | completed => rw [completeSend_packetManager]; exact h
  | _ => exact h

theorem sendQueues_step {allowed : SendQueue → List Buffer → Prop} {S : SendQueue → Prop} (hr : SendRule allowed S)
    {c c' : Core} {e : Event} (h : Queues S c.packetManager.sendQueue)
    (hall : ∀ q bufs, sendPush c e = some (q, bufs) → allowed q bufs) (hs : step c e = some c') :
    Queues S c'.packetManager.sendQueue :=
  sendMap_step hr.toMap h hall hs

theorem receiveQueues_step {allowed : ReceiveQueue → List Buffer → Prop} {S : ReceiveQueue → Prop}
    (hr : ReceiveRule allowed S) {c c' : Core} {e : Event} (h : Queues S c.packetManager.receiveQueue)
    (hall : ∀ q bufs, receivePush c e = some (q, bufs) → allowed q bufs) (hs : step c e = some c') :
    Queues S c'.packetManager.receiveQueue :=
  receiveMap_step hr.toMap h hall hs

end Context

/-! ## Events of the multicast context -/

namespace ContextMcast

open RapidTransfer.Core

/-- The multicast send queue an event pushes to, and the buffers. -/
def mcastPush (c : ContextMcast) : Event → Option (McastSendQueue × List Buffer)
  | .send p bufs => (c.controller.getMulticastContext p).bind fun _ => (c.controller.findSession p 0).bind fun sid =>
      (c.queueOf sid (·.mcastSendQueue) (·.mcastSendQueue)).map (·, bufs)
  | _ => none

theorem mcastQueues_step {allowed : McastSendQueue → List Buffer → Prop} {S : McastSendQueue → Prop}
    (hr : McastRule allowed S) {c c' : ContextMcast} {e : Event} (h : Queues S c.packetManager.mcastSendQueue)
    (hall : ∀ q bufs, mcastPush c e = some (q, bufs) → allowed q bufs) (hs : step c e = some c') :
    Queues S c'.packetManager.mcastSendQueue := by
  cases effect hs with
  | @replicasSet _ peers g _ =>
    simp only [(c.packetManager.setMulticastReplicaNum_cases g.groupId peers.length).1]
    exact h
  | refused _ ho => exact mcastSendQueues_opened hr h ho
  | @sendPushed p bufs _ sid ptr _ _ _ _ q _ _ _ hg hf ho hx hptr hq hpush hpu =>
    have h1 := mcastSendQueues_opened hr h ho
    have hto : mcastPush c (.send p bufs) = some (q, bufs) := by
      simp only [mcastPush, hg, hf, Option.bind_some, queueOf_eq ho hx hptr hq, Option.map_some]
    rw [hpu.packetManager]
    exact h1.update ptr (hr.push (h1 ptr q hq) (hall q bufs hto) hpush)
  | receivePushed _ _ ho _ _ _ _ hpu =>
    rw [hpu.packetManager]
    exact mcastSendQueues_opened hr h ho
  | acksSent hx =>
    simp only [sendAcks_packetManager hx]
    exact h
  | dataSent hx =>
    refine sendDataPackets_rule (P := fun x => Queues S x.packetManager.mcastSendQueue)
      (fun x sid x' r hP hs => ?_) h hx
    obtain ⟨rfl, -⟩ | ⟨e, ptr, q, q', depth, -, -, hq, ht, hring, rfl⟩ := sendSession_some hs
    · exact hP
    · exact hP.update ptr (hr.restamp (hP ptr q hq) ht hring)
  | dataArrived _ _ _ _ _ hd =>
    obtain ⟨q', mv, mem, -, rfl⟩ := receiveData_some hd
    exact h
  | @ackArrived _ _ _ _ _ ptr _ q _ hp _ _ _ _ hq ha =>
    obtain ⟨cwnd, incr, srtt, rttval, rfl⟩ := receiveAck_some ha
    refine h.update ptr (hr.restamp (hr.ack _ c.packetManager.pool (h ptr q hq) (deserialize_bounds hp).2) rfl ?_)
    exact (SendRing.Restamped.refl _).followWnd cwnd
  | completed =>
    simp only [completeSend_packetManager]
    exact h
  | _ => exact h

end ContextMcast

end RapidTransfer
