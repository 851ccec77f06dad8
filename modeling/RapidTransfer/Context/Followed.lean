/-
One session of the unicast context, followed through its events. Whatever a context does for its other sessions, the
queues of one session change in few ways: a call pushes buffers, `sendDataPackets` stamps entries and sets the window,
and a packet of the session arrives (`step_sendQueueAt`, `step_receiveQueueAt`). What an event does for the session is
named here too: the buffers it pushes, the packets it posts, and what it writes.
-/
import RapidTransfer.Context.RoundTrip
import RapidTransfer.Context.Requests
import RapidTransfer.Delivery.Network
import RapidTransfer.Queue.Placement

namespace RapidTransfer

namespace PacketManager

/-! ## The queues of a session -/

/-- The send queue of a session: the one that is there, or the one that would be made for it. -/
def sendQueueAt (m : PacketManager) (sid : Nat) : Option SendQueue :=
  (m.sendQueue sid).or (SendQueue.construct m.raw m.mtuSize m.queueCapacity m.wndSize (sid % 256))

def receiveQueueAt (m : PacketManager) (sid : Nat) : Option ReceiveQueue :=
  (m.receiveQueue sid).or (ReceiveQueue.construct m.mtuSize m.queueCapacity m.wndSize (sid % 256))

/-- What a new queue is made with. -/
structure SameSizes (m m' : PacketManager) : Prop where
  raw : m'.raw = m.raw
  mtuSize : m'.mtuSize = m.mtuSize
  queueCapacity : m'.queueCapacity = m.queueCapacity
  wndSize : m'.wndSize = m.wndSize

variable {m m' : PacketManager} {sid k : Nat}

theorem SameSizes.refl (m : PacketManager) : SameSizes m m := ⟨rfl, rfl, rfl, rfl⟩

theorem sendQueueAt_of_some {q : SendQueue} (h : m.sendQueue sid = some q) : m.sendQueueAt sid = some q := by
  rw [sendQueueAt, h, Option.some_or]

theorem sendQueueAt_of_none (h : m.sendQueue sid = none) :
    m.sendQueueAt sid = SendQueue.construct m.raw m.mtuSize m.queueCapacity m.wndSize (sid % 256) := by
  rw [sendQueueAt, h, Option.none_or]

theorem receiveQueueAt_of_some {q : ReceiveQueue} (h : m.receiveQueue sid = some q) :
    m.receiveQueueAt sid = some q := by
  rw [receiveQueueAt, h, Option.some_or]

theorem receiveQueueAt_of_none (h : m.receiveQueue sid = none) :
    m.receiveQueueAt sid = ReceiveQueue.construct m.mtuSize m.queueCapacity m.wndSize (sid % 256) := by
  rw [receiveQueueAt, h, Option.none_or]

theorem sendQueueAt_congr (hs : SameSizes m m') (h : m'.sendQueue sid = m.sendQueue sid) :
    m'.sendQueueAt sid = m.sendQueueAt sid := by
  rw [sendQueueAt, sendQueueAt, h, hs.raw, hs.mtuSize, hs.queueCapacity, hs.wndSize]

theorem receiveQueueAt_congr (hs : SameSizes m m') (h : m'.receiveQueue sid = m.receiveQueue sid) :
    m'.receiveQueueAt sid = m.receiveQueueAt sid := by
  rw [receiveQueueAt, receiveQueueAt, h, hs.mtuSize, hs.queueCapacity, hs.wndSize]

theorem SetUp.sameSizes (h : SetUp m k m') : SameSizes m m' := ⟨h.raw, h.mtuSize, h.queueCapacity, h.wndSize⟩

/-- A session that is set up gets the queue it would have got at any time. -/
theorem SetUp.sendQueueAt (h : SetUp m k m') (sid : Nat) : m'.sendQueueAt sid = m.sendQueueAt sid := by
  obtain he | ⟨hn, q, hq, he⟩ := h.send
  · exact sendQueueAt_congr h.sameSizes (by rw [he])
  · by_cases hk : sid = k
    · subst hk
      rw [sendQueueAt_of_none hn, hq]
      exact sendQueueAt_of_some (by rw [he]; exact Function.update_self _ _ _)
    · exact sendQueueAt_congr h.sameSizes (by rw [he]; exact Function.update_of_ne hk _ _)

theorem SetUp.receiveQueueAt (h : SetUp m k m') (sid : Nat) : m'.receiveQueueAt sid = m.receiveQueueAt sid := by
  obtain he | ⟨hn, q, hq, he⟩ := h.receive
  · exact receiveQueueAt_congr h.sameSizes (by rw [he])
  · by_cases hk : sid = k
    · subst hk
      rw [receiveQueueAt_of_none hn, hq]
      exact receiveQueueAt_of_some (by rw [he]; exact Function.update_self _ _ _)
    · exact receiveQueueAt_congr h.sameSizes (by rw [he]; exact Function.update_of_ne hk _ _)

/-- One queue of the manager is replaced: the other sessions keep theirs. -/
theorem sendQueueAt_setSendQueue (m : PacketManager) (pool : PacketBufferPool) (k : Nat) (q : SendQueue) (sid : Nat) :
    ({ m with pool := pool }.setSendQueue k q).sendQueueAt sid = if sid = k then some q else m.sendQueueAt sid := by
  split
  · rename_i hk
    subst hk
    exact sendQueueAt_of_some (Function.update_self _ _ _)
  · rename_i hk
    exact sendQueueAt_congr ⟨rfl, rfl, rfl, rfl⟩ (Function.update_of_ne hk _ _)

theorem receiveQueueAt_setReceiveQueue (m : PacketManager) (k : Nat) (q : ReceiveQueue) (sid : Nat) :
    (m.setReceiveQueue k q).receiveQueueAt sid = if sid = k then some q else m.receiveQueueAt sid := by
  split
  · rename_i hk
    subst hk
    exact receiveQueueAt_of_some (Function.update_self _ _ _)
  · rename_i hk
    exact receiveQueueAt_congr ⟨rfl, rfl, rfl, rfl⟩ (Function.update_of_ne hk _ _)

end PacketManager

open RapidTransfer.Core

theorem SendRing.Restamped.trans {r r' r'' : SendRing} (h : r.Restamped r') (h' : r'.Restamped r'') :
    r.Restamped r'' := by
  refine ⟨h'.head.trans h.head, h'.queueCapacity.trans h.queueCapacity, h'.session.trans h.session,
    h'.secondaryQueue.trans h.secondaryQueue, fun k => ?_, ?_⟩
  · obtain ⟨ts, hts⟩ := h.handle k
    obtain ⟨ts', hts'⟩ := h'.handle k
    exact ⟨ts', by rw [hts', hts]⟩
  · rcases h'.wndSize with hw | ⟨w, hw⟩
    · rw [hw]
      exact h.wndSize
    · exact .inr ⟨w, by rw [hw]; simp only [SendRing.setWndSize, h.queueCapacity]⟩

theorem Core.openSession_queuesAt {c c' : Core} {k : Nat} {ret : Int} (h : c.openSession k = some (ret, c'))
    (sid : Nat) : c'.packetManager.sendQueueAt sid = c.packetManager.sendQueueAt sid ∧
      c'.packetManager.receiveQueueAt sid = c.packetManager.receiveQueueAt sid ∧
      PacketManager.SameSizes c.packetManager c'.packetManager ∧ c'.mem = c.mem := by
  have hmem : c'.mem = c.mem := by
    obtain ⟨x, -, -, rfl⟩ | ⟨-, -, -, rfl⟩ | ⟨slot, pool, mgr, -, -, -, -, rfl⟩ := openSession_cases h
    · rfl
    · rfl
    · rfl
  obtain he | ⟨pool, hs⟩ := openSession_manager h
  · rw [he]
    exact ⟨rfl, rfl, .refl _, hmem⟩
  · have hsizes := hs.sameSizes
    exact ⟨hs.sendQueueAt sid, hs.receiveQueueAt sid, ⟨hsizes.1, hsizes.2, hsizes.3, hsizes.4⟩, hmem⟩

namespace Context

/-! ## What an event does for a session -/

/-- The buffers a call pushes for a session: it names the peer of the session, and it is given a task. -/
def sentBy (c c' : Core) (sid : Nat) : Event → List Buffer
  | .send p bufs => if c.controller.findSession p 0 = some sid ∧ c'.nextTaskId ≠ c.nextTaskId then bufs else []
  | _ => []

def postedBy (c c' : Core) (sid : Nat) : Event → List Buffer
  | .receive p bufs => if c.controller.findSession p 0 = some sid ∧ c'.nextTaskId ≠ c.nextTaskId then bufs else []
  | _ => []

/-- The DATA packets of a session that queue pairs have taken in a call of `sendDataPackets`. -/
def postedMsgs (c : Core) (log : List (Nat × Ledger)) (sid : Nat) : List DataMsg :=
  (log.filter (·.1 = sid)).flatMap fun s => s.2.posted.filterMap fun i =>
    (Node.sendQueueOf c sid).map fun q => ⟨i, (q.ring.getMutableEntry i).onWire c.mem⟩

def dataBy (c : Core) (sid : Nat) : Event → List DataMsg
  | .sendData ts order draw => ((Node.sendDataPackets ts draw order ⟨c, .construct, .construct⟩).map fun r =>
      postedMsgs r.2.1.core r.2.2 sid).getD []
  | _ => []

/-- The ACK of a session that a queue pair has taken in a call of `sendAckPackets`, with the tail it stands for. -/
def ackBy (c c' : Core) (sid : Nat) : Event → Option (Nat × Packet)
  | .sendAcks _ =>
    if (c'.endpointStore.outstanding.drop c.endpointStore.outstanding.length).any (·.2.context = some sid) then
      (c'.activeSessionMap.lookup sid).bind fun e =>
        (c'.packetManager.receiveQueue sid).map fun q => (q.tail, e.ackHandle.onWire c'.mem)
    else none
  | _ => none

/-- What an event writes for a session, with the index of the fragment. -/
def writtenBy (c : Core) (sid : Nat) : Event → Option (Nat × MemMove)
  | .arrive _ a => ((c.sessionOf a).filter fun s => s.2 = sid ∧ s.1.cmd = pktCmdData).bind fun s =>
      (c.packetManager.receiveQueue sid).bind fun q => ((q.markCompleted s.1).bind (·.2)).map (q.designated s.1.sn, ·)
  | _ => none

/-! ## The send queue -/

/-- Everything that can become of the send queue of a session. -/
inductive SendMove (c c' : Core) (sid : Nat) : Event → SendQueue → SendQueue → Prop
  | kept {e : Event} {q : SendQueue} (h : sentBy c c' sid e = []) : SendMove c c' sid e q q
  | pushed {p : String} {bufs : List Buffer} {q q' : SendQueue} {pool pool' : PacketBufferPool} {ret : Int} {sn : Nat}
      (hf : c.controller.findSession p 0 = some sid) (hp : q.push bufs pool = some (ret, sn, q', pool'))
      (ht : ret = 0 → c'.nextTaskId ≠ c.nextTaskId) : SendMove c c' sid (.send p bufs) q q'
  | stamped {ts : Nat} {order : List Nat} {draw : Nat → Nat → Post} {q q' : SendQueue} (ht : q'.tail = q.tail)
      (hr : q.ring.Restamped q'.ring) : SendMove c c' sid (.sendData ts order draw) q q'
  | acked {ts cwnd : Nat} {a : Arrival} {p : Packet} {q : SendQueue} {pool : PacketBufferPool}
      (ha : c.sessionOf a = some (p, sid)) (hcmd : p.cmd ≠ pktCmdData) :
      SendMove c c' sid (.arrive ts a) q
        { (q.markCompleted p.sn pool).2.1 with ring := followWnd (q.markCompleted p.sn pool).2.1.ring cwnd }

variable {c c' : Core} {sid : Nat} {e : Event}

theorem sentBy_of_ne {k : Nat} {p : String} {bufs : List Buffer} (hf : c.controller.findSession p 0 = some k)
    (hne : sid ≠ k) : sentBy c c' sid (.send p bufs) = [] := by
  refine if_neg fun h => hne ?_
  exact Option.some.inj (h.1.symm.trans hf)

theorem sentBy_of_tasks (h : c'.nextTaskId = c.nextTaskId) : sentBy c c' sid e = [] := by
  cases e with
  | send p bufs => exact if_neg fun hx => hx.2 h
  | _ => rfl

theorem postedBy_of_ne {k : Nat} {p : String} {bufs : List Buffer} (hf : c.controller.findSession p 0 = some k)
    (hne : sid ≠ k) : postedBy c c' sid (.receive p bufs) = [] := by
  refine if_neg fun h => hne ?_
  exact Option.some.inj (h.1.symm.trans hf)

theorem postedBy_of_tasks (h : c'.nextTaskId = c.nextTaskId) : postedBy c c' sid e = [] := by
  cases e with
  | receive p bufs => exact if_neg fun hx => hx.2 h
  | _ => rfl

theorem entryRule_ownSend : EntryRule (Own (·.sendQueue)) :=
  entryRule_own (fun hk => hk.sendQueue) (fun _ => rfl) fun _ _ _ => rfl

theorem arrive_sendQueueAt {ts : Nat} {a : Arrival} {q : SendQueue} (hown : c.Entries (Own (·.sendQueue)))
    (h : processReceivedPacket c ts a = some c') (hq : c.packetManager.sendQueueAt sid = some q) :
    ∃ q', c'.packetManager.sendQueueAt sid = some q' ∧ SendMove c c' sid (.arrive ts a) q q' := by
  obtain rfl | ⟨p, k, x, hp, hsid, hx, ⟨-, ptr, q0, -, -, hd⟩ | ⟨hcmd, ptr, q0, hptr, hq0, hr⟩⟩ :=
    processReceivedPacket_some h
  · exact ⟨q, hq, .kept rfl⟩
  · obtain ⟨q', mv, mem, -, rfl⟩ := receiveData_some hd
    exact ⟨q, hq, .kept rfl⟩
  · obtain rfl : ptr = k := hown k x hx ptr hptr
    obtain ⟨cwnd, incr, srtt, rttval, rfl⟩ := receiveAck_some hr
    refine Exists.imp (fun _ => And.imp_left (PacketManager.sendQueueAt_setSendQueue _ _ ptr _ sid).trans) ?_
    split
    · rename_i hk
      subst hk
      obtain rfl := Option.some.inj ((PacketManager.sendQueueAt_of_some hq0).symm.trans hq)
      exact ⟨_, rfl, .acked (sessionOf_eq_some.2 ⟨hp, hsid⟩) hcmd⟩
    · exact ⟨q, hq, .kept rfl⟩

theorem step_sendQueueAt {q : SendQueue} (hown : c.Entries (Own (·.sendQueue))) (hs : step c e = some c')
    (hq : c.packetManager.sendQueueAt sid = some q) :
    ∃ q', c'.packetManager.sendQueueAt sid = some q' ∧ SendMove c c' sid e q q' := by
  cases effect hs with
  | refused h ho =>
    obtain ⟨hsend, -⟩ := openSession_queuesAt ho sid
    exact ⟨q, hsend.trans hq, .kept (sentBy_of_tasks (openSession_tasks ho).1)⟩
  | @sendPushed p bufs k ptr sn c1 _ x q0 q' ret pool hf ho hx hptr hq0 hpush hpu =>
    obtain rfl : ptr = k := hown.opened entryRule_ownSend ho k x hx ptr hptr
    have hsend := (openSession_queuesAt ho sid).1.trans hq
    rw [hpu.packetManager, PacketManager.sendQueueAt_setSendQueue]
    split
    · rename_i hk
      subst hk
      rw [PacketManager.sendQueueAt_of_some hq0] at hsend
      obtain rfl := Option.some.inj hsend
      refine ⟨q', rfl, .pushed hf hpush fun hr => ?_⟩
      obtain ⟨-, rfl⟩ | ⟨hne, -⟩ := hpu
      · rw [← (openSession_tasks ho).1]
        exact next_ne _
      · exact absurd hr hne
    · rename_i hk
      exact ⟨q, hsend, .kept (sentBy_of_ne hf hk)⟩
  | @receivePushed p bufs k ptr sn c1 _ x q0 q' ret hf ho hx hptr hq0 hpush hpu =>
    refine ⟨q, ?_, .kept rfl⟩
    rw [hpu.packetManager]
    exact (openSession_queuesAt ho sid).1.trans hq
  | acksSent h =>
    refine ⟨q, ?_, .kept rfl⟩
    rw [sendAcks_packetManager h]
    exact hq
  | @dataSent ts order draw ret _ log h =>
    obtain ⟨-, q', hq', ht, hr⟩ : c'.Entries (Own (·.sendQueue)) ∧
        ∃ q', c'.packetManager.sendQueueAt sid = some q' ∧ q'.tail = q.tail ∧ q.ring.Restamped q'.ring := by
      refine sendDataPackets_rule (P := fun x => x.Entries (Own (·.sendQueue)) ∧
        ∃ q', x.packetManager.sendQueueAt sid = some q' ∧ q'.tail = q.tail ∧ q.ring.Restamped q'.ring) ?_
        ⟨hown, q, hq, rfl, .refl _⟩ h
      rintro x k b x' r ⟨hxown, q1, hq1, ht1, hr1⟩ hses
      obtain rfl | ⟨e, ptr, q2, q3, st, ds, he, hptr, hq2, ht, hr, -, -, rfl⟩ := sendSession_some hses
      · exact ⟨hxown, q1, hq1, ht1, hr1⟩
      · refine ⟨hxown, ?_⟩
        have hset := PacketManager.sendQueueAt_setSendQueue x.packetManager x.packetManager.pool ptr q3 sid
        refine Exists.imp (fun _ => And.imp_left hset.trans) ?_
        split
        · rename_i hk
          subst hk
          obtain rfl := Option.some.inj ((PacketManager.sendQueueAt_of_some hq2).symm.trans hq1)
          exact ⟨q3, rfl, ht.trans ht1, hr1.trans hr⟩
        · exact ⟨q1, hq1, ht1, hr1⟩
    exact ⟨q', hq', .stamped ht hr⟩
  | dataArrived => exact arrive_sendQueueAt hown hs hq
  | ackArrived => exact arrive_sendQueueAt hown hs hq
  | completed =>
    refine ⟨q, ?_, .kept rfl⟩
    rw [completeSend_packetManager]
    exact hq
  | _ => exact ⟨q, hq, .kept (sentBy_of_tasks rfl)⟩

/-! ## The receive queue -/

/-- Everything that can become of the receive queue of a session, and of the memory. -/
inductive ReceiveMove (c c' : Core) (sid : Nat) : Event → ReceiveQueue → ReceiveQueue → Prop
  | kept {e : Event} {q : ReceiveQueue} (hp : postedBy c c' sid e = []) (hw : writtenBy c sid e = none) :
      ReceiveMove c c' sid e q q
  | pushed {p : String} {bufs : List Buffer} {q q' : ReceiveQueue} {ret : Int} {sn : Nat}
      (hf : c.controller.findSession p 0 = some sid) (hp : q.push bufs = some (ret, sn, q'))
      (ht : c'.nextTaskId ≠ c.nextTaskId) : ReceiveMove c c' sid (.receive p bufs) q q'
  | arrived {ts : Nat} {a : Arrival} {p : Packet} {q q' : ReceiveQueue} {mv : Option MemMove}
      (ha : c.sessionOf a = some (p, sid)) (hcmd : p.cmd = pktCmdData) (hm : q.markCompleted p = some (q', mv))
      (hw : writtenBy c sid (.arrive ts a) = mv.map (q.designated p.sn, ·))
      (hmem : c'.mem = mv.elim c.mem (·.apply c.mem)) : ReceiveMove c c' sid (.arrive ts a) q q'

/-- Packets of other sessions, and ACKs, write nothing for the session. -/
theorem writtenBy_of_sessionOf {ts : Nat} {a : Arrival} (h : ∀ p, c.sessionOf a = some (p, sid) → p.cmd ≠ pktCmdData) :
    writtenBy c sid (.arrive ts a) = none := by
  have hfilter : ((c.sessionOf a).filter fun s => s.2 = sid ∧ s.1.cmd = pktCmdData) = none := by
    rw [Option.filter_eq_none_iff]
    rintro ⟨p, k⟩ hs hcond
    obtain ⟨rfl, hcmd⟩ := of_decide_eq_true hcond
    exact h p hs hcmd
  rw [writtenBy, hfilter]
  rfl

theorem arrive_receiveQueueAt {ts : Nat} {a : Arrival} {q : ReceiveQueue} (hown : c.Entries (Own (·.receiveQueue)))
    (h : processReceivedPacket c ts a = some c') (hq : c.packetManager.receiveQueueAt sid = some q) :
    ∃ q', c'.packetManager.receiveQueueAt sid = some q' ∧ ReceiveMove c c' sid (.arrive ts a) q q' := by
  cases hses : c.sessionOf a with
  | none =>
    obtain rfl | ⟨p, k, x, hp, hsid, -⟩ := processReceivedPacket_some h
    · exact ⟨q, hq, .kept rfl (writtenBy_of_sessionOf fun p hs => by rw [hses] at hs; cases hs)⟩
    · rw [sessionOf_eq_some.2 ⟨hp, hsid⟩] at hses
      cases hses
  | some s =>
    obtain ⟨p, k⟩ := s
    obtain ⟨x, hx, ⟨hcmd, ptr, q0, hptr, hq0, hd⟩ | ⟨hcmd, ptr, q0, -, -, hr⟩⟩ :=
      processReceivedPacket_of_session hses h
    · obtain rfl : ptr = k := hown k x hx ptr hptr
      unfold receiveData at hd
      split at hd
      · cases hd
      · rename_i q' mv hm
        cases hd
        refine Exists.imp (fun _ => And.imp_left (PacketManager.receiveQueueAt_setReceiveQueue _ ptr _ sid).trans) ?_
        split
        · rename_i hk
          subst hk
          obtain rfl := Option.some.inj ((PacketManager.receiveQueueAt_of_some hq0).symm.trans hq)
          refine ⟨q', rfl, .arrived hses hcmd hm ?_ rfl⟩
          simp only [writtenBy, hses, Option.filter_some, hcmd, and_self, decide_true, if_true,
            Option.bind_some, hq0, hm]
        · rename_i hk
          refine ⟨q, hq, .kept rfl (writtenBy_of_sessionOf fun p' hs => ?_)⟩
          rw [hses] at hs
          exact absurd (congrArg Prod.snd (Option.some.inj hs)).symm hk
    · obtain ⟨cwnd, incr, srtt, rttval, rfl⟩ := receiveAck_some hr
      refine ⟨q, hq, .kept rfl (writtenBy_of_sessionOf fun p' hs => ?_)⟩
      rw [hses] at hs
      obtain ⟨rfl, -⟩ := Prod.mk.inj (Option.some.inj hs)
      exact hcmd

theorem writtenBy_of_ne (h : ∀ ts a, e ≠ .arrive ts a) : writtenBy c sid e = none := by
  cases e with
  | arrive ts a => exact absurd rfl (h ts a)
  | _ => rfl

theorem step_receiveQueueAt {q : ReceiveQueue} (hown : c.Entries (Own (·.receiveQueue))) (hs : step c e = some c')
    (hq : c.packetManager.receiveQueueAt sid = some q) :
    ∃ q', c'.packetManager.receiveQueueAt sid = some q' ∧ ReceiveMove c c' sid e q q' := by
  by_cases harr : ∃ ts a, e = .arrive ts a
  · obtain ⟨ts, a, rfl⟩ := harr
    exact arrive_receiveQueueAt hown hs hq
  · push Not at harr
    have hw : writtenBy c sid e = none := writtenBy_of_ne harr
    cases effect hs with
    | refused h ho =>
      obtain ⟨-, hrecv, -⟩ := openSession_queuesAt ho sid
      exact ⟨q, hrecv.trans hq, .kept (postedBy_of_tasks (openSession_tasks ho).1) hw⟩
    | sendPushed _ ho _ _ _ _ hpu =>
      refine ⟨q, ?_, .kept rfl hw⟩
      rw [hpu.packetManager]
      exact (openSession_queuesAt ho sid).2.1.trans hq
    | @receivePushed p bufs k ptr sn c1 _ x q0 q' ret hf ho hx hptr hq0 hpush hpu =>
      obtain rfl : ptr = k := hown.opened Exchange.entryRule_ownReceive ho k x hx ptr hptr
      have hrecv := (openSession_queuesAt ho sid).2.1.trans hq
      rw [hpu.packetManager, PacketManager.receiveQueueAt_setReceiveQueue]
      split
      · rename_i hk
        subst hk
        rw [PacketManager.receiveQueueAt_of_some hq0] at hrecv
        obtain rfl := Option.some.inj hrecv
        refine ⟨q', rfl, .pushed hf hpush ?_⟩
        obtain ⟨ids, sq, -, -, hret, -⟩ := ReceiveQueue.push_some hpush
        obtain ⟨-, rfl⟩ | ⟨hne, -⟩ := hpu
        · rw [← (openSession_tasks ho).1]
          exact next_ne _
        · exact absurd hret hne
      · rename_i hk
        exact ⟨q, hrecv, .kept (postedBy_of_ne hf hk) hw⟩
    | acksSent h =>
      refine ⟨q, ?_, .kept rfl hw⟩
      rw [sendAcks_packetManager h]
      exact hq
    | dataSent h =>
      refine ⟨q, ?_, .kept rfl hw⟩
      refine sendDataPackets_rule (P := fun x => x.packetManager.receiveQueueAt sid = some q) ?_ hq h
      intro x k b x' r hx hses
      obtain rfl | ⟨e, ptr, q2, q3, st, ds, -, -, -, -, -, -, -, rfl⟩ := sendSession_some hses
      · exact hx
      · exact hx
    | dataArrived => exact absurd rfl (harr _ _)
    | ackArrived => exact absurd rfl (harr _ _)
    | completed =>
      refine ⟨q, ?_, .kept rfl hw⟩
      rw [completeSend_packetManager]
      exact hq
    | _ => exact ⟨q, hq, .kept (postedBy_of_tasks rfl) hw⟩

theorem step_sameSizes (hs : step c e = some c') : PacketManager.SameSizes c.packetManager c'.packetManager := by
  cases effect hs with
  | refused _ ho => exact (openSession_queuesAt ho 0).2.2.1
  | sendPushed _ ho _ _ _ _ hpu =>
    obtain ⟨h1, h2, h3, h4⟩ := (openSession_queuesAt ho 0).2.2.1
    rw [hpu.packetManager]
    exact ⟨h1, h2, h3, h4⟩
  | receivePushed _ ho _ _ _ _ hpu =>
    obtain ⟨h1, h2, h3, h4⟩ := (openSession_queuesAt ho 0).2.2.1
    rw [hpu.packetManager]
    exact ⟨h1, h2, h3, h4⟩
  | acksSent h => rw [sendAcks_packetManager h]; exact .refl _
  | dataSent h =>
    refine sendDataPackets_rule (P := fun x => PacketManager.SameSizes c.packetManager x.packetManager) ?_ (.refl _) h
    intro x k b x' r hx hses
    obtain rfl | ⟨e, ptr, q2, q3, st, ds, -, -, -, -, -, -, -, rfl⟩ := sendSession_some hses
    · exact hx
    · exact ⟨hx.1, hx.2, hx.3, hx.4⟩
  | dataArrived _ _ _ _ _ h =>
    obtain ⟨q', mv, mem, -, rfl⟩ := receiveData_some h
    exact ⟨rfl, rfl, rfl, rfl⟩
  | ackArrived _ _ _ _ _ h =>
    obtain ⟨cwnd, incr, srtt, rttval, rfl⟩ := receiveAck_some h
    exact ⟨rfl, rfl, rfl, rfl⟩
  | completed => rw [completeSend_packetManager]; exact .refl _
  | _ => exact .refl _

/-! ## Windows -/

/-- The loop's copy of the entry and the queue stay within a window. -/
def Sending.Within (w : Nat) (l : Sending) : Prop := l.info.cwnd ≤ w ∧ l.queue.ring.wndSize ≤ w

namespace Sending.Within

variable {w : Nat} {l l' : Sending}

theorem touch (h : Within w l) (hw : 4 ≤ w) (ts curr : Nat) : Within w (l.touch ts curr) := by
  obtain ⟨hcwnd, hwnd⟩ := h
  unfold Sending.touch
  split
  · -- half the window and two more, or four
    have hback : (backoff l.core.mtuSize l.info).cwnd ≤ w := by
      simp only [backoff, kMinSSThreshValue, kResendValue]
      omega
    refine ⟨hback, ?_⟩
    show min ((backoff l.core.mtuSize l.info).cwnd % 2 ^ 16) _ ≤ w
    omega
  · exact ⟨hcwnd, hwnd⟩

theorem connect (h : Within w l) (sid : Nat) : Within w (l.connect sid).2 := by
  unfold Sending.connect
  split
  · exact h
  · exact h

theorem flush {ep : Endpoint} {draw : Nat → Post} (h : Within w l) (hf : l.flush ep draw = some l') : Within w l' := by
  obtain ⟨r, -, rfl⟩ := Option.map_eq_some_iff.1 hf
  exact h

theorem sendIndex {ts sid curr : Nat} {draw : Nat → Post} {b : Bool} (h : Within w l) (hw : 4 ≤ w)
    (hs : Context.sendIndex ts draw sid l curr = some (b, l')) : Within w l' := by
  have htouch := h.touch hw ts curr
  unfold Context.sendIndex at hs
  dsimp only at hs
  split at hs
  · cases hs
    exact htouch
  · have hcon := htouch.connect sid
    split at hs
    · rename_i hl
      rw [hl] at hcon
      cases hs
      exact hcon
    · rename_i ep l1 hl
      rw [hl] at hcon
      have hreq : Within w { l1 with requestList := l1.requestList ++ [⟨none⟩] } := hcon
      split at hs
      · obtain ⟨l2, hf, he⟩ := Option.map_eq_some_iff.1 hs
        cases he
        exact hreq.flush hf
      · cases hs
        exact hreq

theorem sendIndices {ts sid : Nat} {draw : Nat → Post} (hw : 4 ≤ w) : ∀ {is : List Nat} {l l' : Sending} {b : Bool},
    Within w l → Context.sendIndices ts draw sid is l = some (b, l') → Within w l'
  | [], l, l', b, h, hs => by
    cases hs
    exact h
  | i :: is, l, l', b, h, hs => by
    unfold Context.sendIndices at hs
    split at hs
    · cases hs
      exact h
    · split at hs
      · cases hs
      · rename_i l1 h1
        cases hs
        exact h.sendIndex hw h1
      · rename_i l1 h1
        exact sendIndices hw (h.sendIndex hw h1) hs

theorem finish {draw : Nat → Post} (h : Within w l) (hf : Context.finish draw l = some l') : Within w l' := by
  unfold Context.finish at hf
  split at hf
  · cases hf
    exact h
  · cases hf
  · exact h.flush hf

end Sending.Within

/-- The congestion window of a session and the window of its send queue stay within `w`. -/
structure WndAtMost (w sid : Nat) (c : Core) : Prop where
  entry : ∀ e, c.activeSessionMap.lookup sid = some e → e.cwnd ≤ w
  queue : ∀ q, c.packetManager.sendQueue sid = some q → q.ring.wndSize ≤ w

/-- One queue of the map is replaced. -/
theorem wnd_le_of_update {w ptr : Nat} {m : Nat → Option SendQueue} {q' : SendQueue}
    (h : ∀ q, m sid = some q → q.ring.wndSize ≤ w) (hq' : ptr = sid → q'.ring.wndSize ≤ w) :
    ∀ q, Function.update m ptr (some q') sid = some q → q.ring.wndSize ≤ w := by
  intro q hq
  by_cases hk : sid = ptr
  · subst hk
    rw [Function.update_self] at hq
    cases hq
    exact hq' rfl
  · rw [Function.update_of_ne hk] at hq
    exact h q hq

/-- One session of `sendDataPackets` leaves the windows within their bound. -/
theorem WndAtMost.sendSession {w k ts : Nat} {draw : Nat → Post} {b : Bool} {resent : List Nat} (h : WndAtMost w sid c)
    (hw : 4 ≤ w) (hown : c.Entries (Own (·.sendQueue))) (hs : sendSession ts draw c k = some (b, c', resent)) :
    WndAtMost w sid c' := by
  have hmap : c'.activeSessionMap = c.activeSessionMap := by
    obtain rfl | ⟨e, ptr, q, q', st, ds, -, -, -, -, -, -, -, rfl⟩ := sendSession_some hs
    · rfl
    · rfl
  refine ⟨by rw [hmap]; exact h.entry, ?_⟩
  unfold Context.sendSession at hs
  split at hs
  · cases hs
  · rename_i info hinfo
    split at hs
    · cases hs
      exact h.queue
    · split at hs
      · cases hs
      · rename_i ptr hptr
        obtain rfl : ptr = k := hown k info hinfo ptr hptr
        split at hs
        · cases hs
        · rename_i q hq
          have hstore : ∀ l : Sending, Sending.Sound c q l → (ptr = sid → l.Within w) →
              ∀ q', (l.store ptr).packetManager.sendQueue sid = some q' → q'.ring.wndSize ≤ w := by
            intro l hl hin
            have hmgr : l.core.packetManager = c.packetManager := by rw [hl.core]
            have hqueue : (l.store ptr).packetManager.sendQueue =
                Function.update c.packetManager.sendQueue ptr (some l.queue) := by rw [← hmgr]; rfl
            rw [hqueue]
            exact wnd_le_of_update h.queue fun hk => (hin hk).2
          have hsound : Sending.Sound c q ⟨c, info, q, none, [], 0, []⟩ :=
            ⟨rfl, rfl, .refl _, ⟨[], by simp, by simp⟩, by simp⟩
          have hstart : ptr = sid → Sending.Within w ⟨c, info, q, none, [], 0, []⟩ := by
            rintro rfl
            exact ⟨h.entry info hinfo, h.queue q hq⟩
          split at hs
          · cases hs
          · rename_i l hl
            cases hs
            exact hstore l (hsound.sendIndices hl) fun hk => Sending.Within.sendIndices hw (hstart hk) hl
          · rename_i l hl
            obtain ⟨l', hf, hx⟩ := Option.map_eq_some_iff.1 hs
            cases hx
            exact hstore l' ((hsound.sendIndices hl).finish hf) fun hk =>
              (Sending.Within.sendIndices hw (hstart hk) hl).finish hf

theorem WndAtMost.congr {w : Nat} (h : WndAtMost w sid c) (hm : c'.activeSessionMap = c.activeSessionMap)
    (hq : c'.packetManager.sendQueue = c.packetManager.sendQueue) : WndAtMost w sid c' :=
  ⟨by rw [hm]; exact h.entry, by rw [hq]; exact h.queue⟩

/-- An entry changes, but not in its window. -/
theorem WndAtMost.setSession {w k : Nat} {x x' : SessionInfo} (h : WndAtMost w sid c)
    (hx : c.activeSessionMap.lookup k = some x) (hcwnd : x'.cwnd = x.cwnd) : WndAtMost w sid (c.setSession k x') := by
  refine ⟨fun e he => ?_, h.queue⟩
  rw [lookup_setSession] at he
  split at he
  · rename_i hk
    subst hk
    cases he
    rw [hcwnd]
    exact h.entry x hx
  · exact h.entry e he

theorem WndAtMost.opened {w k : Nat} {ret : Int} (h : WndAtMost w sid c) (hw : 1 ≤ w)
    (hnew : c.packetManager.wndSize ≤ w) (ho : c.openSession k = some (ret, c')) : WndAtMost w sid c' := by
  constructor
  · obtain ⟨x, -, -, rfl⟩ | ⟨-, -, -, rfl⟩ | ⟨slot, pool, mgr, -, -, -, -, rfl⟩ := openSession_cases ho
    · exact h.entry
    · intro e he
      rw [lookup_setSession] at he
      split at he
      · cases he
        exact hw
      · exact h.entry e he
    · intro e he
      rw [lookup_setSession] at he
      split at he
      · cases he
        exact hw
      · exact h.entry e he
  · obtain he | ⟨pool, hset⟩ := openSession_manager ho
    · rw [he]
      exact h.queue
    · obtain he | ⟨-, q, hq, he⟩ := hset.send
      · rw [he]
        exact h.queue
      · rw [he]
        intro q' hq'
        by_cases hk : sid = k
        · subst hk
          rw [Function.update_self] at hq'
          cases hq'
          obtain ⟨r, hr, rfl⟩ := Option.map_eq_some_iff.1 hq
          unfold SendRing.construct at hr
          split at hr
          · cases hr
            exact (Nat.mod_le _ _).trans hnew
          · cases hr
        · rw [Function.update_of_ne hk] at hq'
          exact h.queue q' hq'

theorem followWnd_wndSize_le (r : SendRing) (cwnd : Nat) : (followWnd r cwnd).wndSize ≤ cwnd := by
  unfold followWnd
  split
  · exact (min_le_left _ _).trans (Nat.mod_le _ _)
  · rename_i h
    exact (not_not.1 h).le

/-- The windows an ACK installs are not larger than the one it carries. -/
theorem receiveAck_wnd {ts k ptr : Nat} {x : SessionInfo} {q : SendQueue} {p : Packet}
    (h : receiveAck c ts k ptr x q p = some c') :
    ∃ q' x', c'.packetManager.sendQueue = Function.update c.packetManager.sendQueue ptr (some q') ∧
      q'.ring.wndSize ≤ p.wnd ∧ c'.activeSessionMap = c.activeSessionMap.insert k x' ∧ x'.cwnd ≤ p.wnd := by
  unfold receiveAck at h
  obtain ⟨x', hx', rfl⟩ := Option.map_eq_some_iff.1 h
  have hcwnd : x'.cwnd ≤ p.wnd := by
    obtain ⟨y, -, rfl⟩ := Option.map_eq_some_iff.1 hx'
    exact min_le_left _ _
  exact ⟨_, x', rfl, (followWnd_wndSize_le _ _).trans hcwnd, rfl, hcwnd⟩

theorem WndAtMost.arrive {w ts : Nat} {a : Arrival} (h : WndAtMost w sid c) (hown : c.Entries (Own (·.sendQueue)))
    (hack : ∀ p, c.sessionOf a = some (p, sid) → p.cmd ≠ pktCmdData → p.wnd ≤ w)
    (hs : processReceivedPacket c ts a = some c') : WndAtMost w sid c' := by
  obtain rfl | ⟨p, k, x, hp, hsid, hx, ⟨-, ptr, q, -, -, hd⟩ | ⟨hcmd, ptr, q, hptr, -, hr⟩⟩ :=
    processReceivedPacket_some hs
  · exact h
  · obtain ⟨q', mv, mem, -, rfl⟩ := receiveData_some hd
    exact WndAtMost.setSession (c := { c with packetManager := _, mem := mem }) (h.congr rfl rfl) hx rfl
  · obtain rfl : ptr = k := hown k x hx ptr hptr
    obtain ⟨q', x', hqueue, hwnd, hmap, hcwnd⟩ := receiveAck_wnd hr
    have hbound : ptr = sid → p.wnd ≤ w := by
      rintro rfl
      exact hack p (sessionOf_eq_some.2 ⟨hp, hsid⟩) hcmd
    constructor
    · intro e he
      rw [hmap] at he
      by_cases hk : sid = ptr
      · subst hk
        rw [AList.lookup_insert] at he
        cases he
        exact hcwnd.trans (hbound rfl)
      · rw [AList.lookup_insert_ne hk] at he
        exact h.entry e he
    · rw [hqueue]
      exact wnd_le_of_update h.queue fun hk => hwnd.trans (hbound hk)

/-- The windows of a session stay within a bound that its ACKs respect. -/
theorem WndAtMost.step {w : Nat} (h : WndAtMost w sid c) (hw : 4 ≤ w) (hnew : c.packetManager.wndSize ≤ w)
    (hown : c.Entries (Own (·.sendQueue)))
    (hack : ∀ ts a p, e = .arrive ts a → c.sessionOf a = some (p, sid) → p.cmd ≠ pktCmdData → p.wnd ≤ w)
    (hs : step c e = some c') : WndAtMost w sid c' := by
  have hopen : ∀ {k ret c1}, c.openSession k = some (ret, c1) → WndAtMost w sid c1 :=
    fun ho => h.opened (by omega) hnew ho
  cases effect hs with
  | refused _ ho => exact hopen ho
  | @sendPushed _ _ k ptr sn c1 _ x q q' ret pool _ ho _ _ hq hpush hpu =>
    refine ⟨by rw [hpu.activeSessionMap]; exact (hopen ho).entry, ?_⟩
    rw [hpu.packetManager]
    refine wnd_le_of_update (hopen ho).queue ?_
    rintro rfl
    obtain ⟨ids, sq, -, -, hfill⟩ := SendQueue.push_some hpush
    have hframe := (SendRing.fill_frame q.tail (q.ring.wndSize + 1) { q.ring with secondaryQueue := sq }
      c1.packetManager.pool).1
    rw [show q'.ring = _ from congrArg (·.2.1.ring) hfill.symm]
    exact hframe.le.trans ((hopen ho).queue q hq)
  | receivePushed _ ho _ _ _ _ hpu =>
    exact (hopen ho).congr hpu.activeSessionMap (by rw [hpu.packetManager]; rfl)
  | @acksSent order ret _ hx =>
    refine sendAcks_rule (P := WndAtMost w sid) ?_ h (acksAll_true ackWnd false order c) hx
    rintro x k y q p r x' hx hy - - - hp
    obtain ⟨st, n, rfl, -⟩ := postAck_some hp
    exact WndAtMost.setSession (c := { x with endpointStore := st }) (hx.congr rfl rfl) hy rfl
  | dataSent hx =>
    refine (sendDataPackets_rule (P := fun x => x.Entries (Own (·.sendQueue)) ∧ WndAtMost w sid x) ?_ ⟨hown, h⟩ hx).2
    intro x k b x' r hP hses
    refine ⟨?_, hP.2.sendSession hw hP.1 hses⟩
    obtain rfl | ⟨e, ptr, q, q', st, ds, -, -, -, -, -, -, -, rfl⟩ := sendSession_some hses
    · exact hP.1
    · exact hP.1
  | dataArrived => exact h.arrive hown (hack _ _ · rfl) hs
  | ackArrived => exact h.arrive hown (hack _ _ · rfl) hs
  | @completed r =>
    obtain he | ⟨k, y, -, hy, -, he⟩ := completeSend_cases c r
    · rw [he]
      exact h.congr rfl rfl
    · rw [he]
      exact WndAtMost.setSession (c := { c with endpointStore := _ }) (h.congr rfl rfl) hy rfl
  | _ => exact h.congr rfl rfl

end Context

/-! ## Packets on the wire -/

/-- The packets of the loop are of the indices it goes through. -/
def Posting.Within (is : List Nat) (x : Posting) : Prop := ∀ i ∈ x.ledger.posted ++ x.ledger.held, i ∈ is

namespace Posting.Within

variable {is : List Nat} {x x' : Posting} {draw : Nat → Post}

theorem flush {ep : Endpoint} (h : Within is x) (hf : x.flush ep draw = some x') : Within is x' := by
  obtain ⟨l, -, rfl⟩ := Option.map_eq_some_iff.1 hf
  intro i hi
  rcases List.mem_append.1 hi with hposted | hheld
  · rcases List.mem_append.1 hposted with hp | ht
    · exact h i (List.mem_append_left _ hp)
    · exact h i (List.mem_append_right _ (List.mem_of_mem_take ht))
  · cases hheld

theorem sendIndex {ts sid curr : Nat} {b : Bool} (h : Within is x) (hcurr : curr ∈ is)
    (hs : x.sendIndex ts draw sid curr = some (b, x')) : Within is x' := by
  unfold Posting.sendIndex at hs
  dsimp only at hs
  split at hs
  · cases hs
    exact h
  · split at hs
    · cases hs
      exact h
    · rename_i l hl
      have hheld : Within is
          { x with
            sending := { l with requestList := l.requestList ++ [⟨none⟩] }
            cache := x.cache.allocate
            ledger := ⟨x.ledger.stamped ++ [curr], x.ledger.allocated ++ [curr], x.ledger.held ++ [curr],
              x.ledger.posted⟩ } := by
        intro i hi
        simp only [← List.append_assoc] at hi
        rcases List.mem_append.1 hi with hi | hi
        · exact h i hi
        · rw [List.mem_singleton.1 hi]
          exact hcurr
      split at hs
      · obtain ⟨x1, hf, he⟩ := Option.map_eq_some_iff.1 hs
        cases he
        exact hheld.flush hf
      · cases hs
        exact hheld

theorem sendIndices {ts sid : Nat} : ∀ {js : List Nat} {x x' : Posting} {b : Bool}, Within is x → (∀ j ∈ js, j ∈ is) →
    x.sendIndices ts draw sid js = some (b, x') → Within is x'
  | [], x, x', b, h, _, hs => by
    cases hs
    exact h
  | j :: js, x, x', b, h, hsub, hs => by
    unfold Posting.sendIndices at hs
    have hj := hsub j List.mem_cons_self
    split at hs
    · cases hs
      exact h
    · split at hs
      · cases hs
      · rename_i x1 h1
        cases hs
        exact h.sendIndex hj h1
      · rename_i x1 h1
        exact sendIndices (h.sendIndex hj h1) (fun k hk => hsub k (List.mem_cons_of_mem _ hk)) hs

theorem finish (h : Within is x) (hf : x.finish draw = some x') : Within is x' := by
  unfold Posting.finish at hf
  split at hf
  · cases hf
    exact h
  · cases hf
  · exact h.flush hf

end Posting.Within

namespace Node

variable {n n' : Node} {ts sid : Nat}

/-- The entries and the live ranges of the send queues are as they were. -/
structure SameRanges (n n' : Node) : Prop where
  sessions : n'.core.activeSessionMap = n.core.activeSessionMap
  mem : n'.core.mem = n.core.mem
  queues : ∀ ptr q, n.core.packetManager.sendQueue ptr = some q →
    ∃ q', n'.core.packetManager.sendQueue ptr = some q' ∧ q'.tail = q.tail ∧ q'.ring.head = q.ring.head

theorem SameRanges.refl (n : Node) : SameRanges n n := ⟨rfl, rfl, fun _ q hq => ⟨q, hq, rfl, rfl⟩⟩

theorem SameRanges.trans {n'' : Node} (h : SameRanges n n') (h' : SameRanges n' n'') : SameRanges n n'' := by
  refine ⟨h'.sessions.trans h.sessions, h'.mem.trans h.mem, fun ptr q hq => ?_⟩
  obtain ⟨q', hq', ht, hh⟩ := h.queues ptr q hq
  obtain ⟨q'', hq'', ht', hh'⟩ := h'.queues ptr q' hq'
  exact ⟨q'', hq'', ht'.trans ht, hh'.trans hh⟩

theorem sendSession_sameRanges {draw : Nat → Post} {b : Bool} {g : Ledger}
    (h : n.sendSession ts draw sid = some (b, n', g)) : SameRanges n n' := by
  obtain ⟨resent, hc⟩ := sendSession_some h
  obtain he | ⟨e, ptr, q, q', st, ds, -, -, hq, ht, hr, -, -, he⟩ := Context.sendSession_some hc
  · exact ⟨by rw [he], by rw [he], fun ptr q hq => ⟨q, by rw [he]; exact hq, rfl, rfl⟩⟩
  · refine ⟨by rw [he], by rw [he], fun k q0 hq0 => ?_⟩
    rw [he]
    show ∃ y, Function.update n.core.packetManager.sendQueue ptr (some q') k = some y ∧ _
    by_cases hk : k = ptr
    · subst hk
      obtain rfl := Option.some.inj (hq.symm.trans hq0)
      exact ⟨q', Function.update_self _ _ _, ht, hr.head⟩
    · rw [Function.update_of_ne hk]
      exact ⟨q0, hq0, rfl, rfl⟩

/-- The packets a session has posted are of its live range. -/
def PostsLive (n : Node) (sid : Nat) (g : Ledger) : Prop :=
  ∀ i ∈ g.posted, ∃ q, sendQueueOf n.core sid = some q ∧ q.tail ≤ i ∧ i < q.ring.head

theorem PostsLive.mono {g : Ledger} (h : PostsLive n sid g) (hs : SameRanges n n') : PostsLive n' sid g := by
  intro i hi
  obtain ⟨q, hq, htail, hhead⟩ := h i hi
  obtain ⟨ptr, hptr, hq⟩ := Option.bind_eq_some_iff.1 hq
  obtain ⟨q', hq', ht, hh⟩ := hs.queues ptr q hq
  refine ⟨q', ?_, ht.le.trans htail, hhead.trans_eq hh.symm⟩
  unfold sendQueueOf
  rw [hs.sessions, hptr]
  exact hq'

theorem sendSession_postsLive {draw : Nat → Post} {b : Bool} {g : Ledger}
    (h : n.sendSession ts draw sid = some (b, n', g)) : PostsLive n' sid g := by
  refine PostsLive.mono ?_ (sendSession_sameRanges h)
  unfold sendSession at h
  split at h
  · cases h
  · rename_i info hinfo
    split at h
    · cases h
      exact fun i hi => (List.not_mem_nil hi).elim
    · split at h
      · cases h
      · rename_i ptr hptr
        split at h
        · cases h
        · rename_i q hq
          have hof : sendQueueOf n.core sid = some q := by
            rw [sendQueueOf, hinfo, Option.bind_some, hptr, Option.bind_some, hq]
          have hlive : ∀ x : Posting, x.Within (Context.sendRange q info) → PostsLive n sid x.ledger := by
            intro x hx i hi
            have hrange := hx i (List.mem_append_left _ hi)
            unfold Context.sendRange at hrange
            rw [List.mem_range'_1] at hrange
            exact ⟨q, hof, hrange.1, by omega⟩
          have hstart : Posting.Within (Context.sendRange q info)
              ⟨⟨n.core, info, q, none, [], 0, []⟩, n.cache, ⟨[], [], [], []⟩⟩ :=
            fun i hi => (List.not_mem_nil hi).elim
          split at h
          · cases h
          · rename_i x hx
            cases h
            exact hlive x (hstart.sendIndices (fun _ hj => hj) hx)
          · rename_i x hx
            obtain ⟨x', hf, he⟩ := Option.map_eq_some_iff.1 h
            cases he
            exact hlive x' ((hstart.sendIndices (fun _ hj => hj) hx).finish hf)

theorem sendDataPackets_postsLive {draw : Nat → Nat → Post} : ∀ {order : List Nat} {n n' : Node} {ret : Int}
    {log : List (Nat × Ledger)}, n.sendDataPackets ts draw order = some (ret, n', log) →
      SameRanges n n' ∧ ∀ s ∈ log, PostsLive n' s.1 s.2
  | [], n, n', ret, log, h => by
    cases h
    exact ⟨.refl n, fun s hs => (List.not_mem_nil hs).elim⟩
  | sid :: rest, n, n', ret, log, h => by
    unfold sendDataPackets at h
    split at h
    · cases h
    · rename_i hs
      cases h
      refine ⟨sendSession_sameRanges hs, fun s hmem => ?_⟩
      rw [List.mem_singleton.1 hmem]
      exact sendSession_postsLive hs
    · rename_i n1 g hs
      obtain ⟨⟨ret', n2, log'⟩, hr, he⟩ := Option.map_eq_some_iff.1 h
      cases he
      obtain ⟨hrange, hlive⟩ := sendDataPackets_postsLive hr
      refine ⟨(sendSession_sameRanges hs).trans hrange, fun s hmem => ?_⟩
      rcases List.mem_cons.1 hmem with rfl | hmem
      · exact (sendSession_postsLive hs).mono hrange
      · exact hlive s hmem

end Node

namespace Context

variable {c c' : Core} {sid : Nat} {e : Event}

/-- A DATA packet that was posted is the packet of a live index, as the send queue has it after the call. -/
theorem mem_dataBy {m : DataMsg} (hown : c'.Entries (Own (·.sendQueue))) (hs : step c e = some c')
    (hm : m ∈ dataBy c sid e) :
    ∃ q, c'.packetManager.sendQueue sid = some q ∧ q.tail ≤ m.index ∧ m.index < q.ring.head ∧
      m.packet = (q.ring.getMutableEntry m.index).onWire c'.mem := by
  cases e with
  | sendData ts order draw =>
    unfold dataBy at hm
    dsimp only at hm
    cases hr : Node.sendDataPackets ts draw order ⟨c, .construct, .construct⟩ with
    | none =>
      rw [hr] at hm
      exact (List.not_mem_nil hm).elim
    | some r =>
      obtain ⟨ret, n, log⟩ := r
      rw [hr] at hm
      obtain ⟨resent, hc⟩ := Node.sendDataPackets_some hr
      have hcore : n.core = c' := by
        obtain ⟨r, hr, rfl⟩ := Option.map_eq_some_iff.1 hs
        obtain rfl := Option.some.inj (hc.symm.trans hr)
        rfl
      obtain ⟨s, hmem, hm⟩ := List.mem_flatMap.1 hm
      obtain ⟨hlog, hk⟩ := List.mem_filter.1 hmem
      obtain ⟨i, hi, hx⟩ := List.mem_filterMap.1 hm
      obtain ⟨q, hq, rfl⟩ := Option.map_eq_some_iff.1 hx
      obtain ⟨q', hq', htail, hhead⟩ := (Node.sendDataPackets_postsLive hr).2 s hlog i hi
      rw [of_decide_eq_true hk] at hq'
      obtain rfl := Option.some.inj (hq.symm.trans hq')
      rw [hcore] at hq ⊢
      obtain ⟨ptr, hptr, hqueue⟩ := Option.bind_eq_some_iff.1 hq
      obtain ⟨x, hx, hptr⟩ := Option.bind_eq_some_iff.1 hptr
      obtain rfl := hown sid x hx ptr hptr
      exact ⟨q, hqueue, htail, hhead, rfl⟩
  | _ => exact (List.not_mem_nil hm).elim

end Context

namespace Core

variable {c c' : Core}

/-- The ACK handle of the session owns a packet, and its header is that of the receive queue. -/
def Announces (wnd : ReceiveQueue → Nat) (c : Core) (sid : Nat) : Prop :=
  ∃ e q h, c.activeSessionMap.lookup sid = some e ∧ e.receiveQueue.bind c.packetManager.receiveQueue = some q ∧
    e.ackHandle = ackHeader sid (wnd q) q h ∧ e.ackHandle.packetBuf.isSome = true

/-- Whatever requests `sendAcks` adds, the sessions they are of announce their receive queues. -/
theorem sendAcks_announces {wnd : ReceiveQueue → Nat} {one : Bool} {order : List (Nat × Post)} {ret : Int}
    (h : sendAcks wnd one order c = some (ret, c')) :
    ∃ ds, c'.endpointStore.outstanding = c.endpointStore.outstanding ++ ds ∧
      ∀ d ∈ ds, ∀ sid, d.2.context = some sid → c'.Announces wnd sid := by
  refine sendAcks_rule (P := fun x => ∃ ds, x.endpointStore.outstanding = c.endpointStore.outstanding ++ ds ∧
    ∀ d ∈ ds, ∀ sid, d.2.context = some sid → x.Announces wnd sid) ?_
    ⟨[], (List.append_nil _).symm, fun d hd => (List.not_mem_nil hd).elim⟩ (acksAll_true wnd one order c) h
  rintro x k e q p r x' ⟨ds, hout, hds⟩ he hq - - hp
  obtain ⟨ds', hout', hds'⟩ := postAck_outstanding hp
  obtain ⟨st, n, rfl, -⟩ := postAck_some hp
  have hnew : e.ackHandle.packetBuf.isSome = true → Announces wnd ({ x with endpointStore := st }.setSession k
      { e with ackHandle := ackHeader k (wnd q) q e.ackHandle, ackPackets := n }) k := by
    intro hbuf
    exact ⟨{ e with ackHandle := ackHeader k (wnd q) q e.ackHandle, ackPackets := n }, q, e.ackHandle,
      by rw [lookup_setSession, if_pos rfl], hq, rfl, hbuf⟩
  refine ⟨ds ++ ds', by rw [hout', hout, List.append_assoc], fun d hd sid hctx => ?_⟩
  rcases List.mem_append.1 hd with hd | hd
  · obtain ⟨e0, q0, h0, he0, hq0, hhead, hbuf⟩ := hds d hd sid hctx
    by_cases hk : sid = k
    · subst hk
      obtain rfl := Option.some.inj (he.symm.trans he0)
      exact hnew hbuf
    · exact ⟨e0, q0, h0, by rw [lookup_setSession, if_neg hk]; exact he0, hq0, hhead, hbuf⟩
  · obtain ⟨hk, hbuf⟩ := hds' d hd
    obtain rfl := Option.some.inj (hk.symm.trans hctx)
    exact hnew hbuf

end Core

namespace Context

variable {c c' : Core} {sid : Nat} {e : Event}

/-- An ACK that was posted carries the tail of the receive queue and the window of the class. -/
theorem ackBy_some {v : Nat} {p : Packet} (hplain : c'.AcksPlain) (hown : c'.Entries (Own (·.receiveQueue)))
    (hs : step c e = some c') (ha : ackBy c c' sid e = some (v, p)) :
    ∃ q, c'.packetManager.receiveQueue sid = some q ∧ v = q.tail ∧ p.sn = shortSN v ∧ p.wnd = ackWnd q % 2 ^ 16 := by
  cases e with
  | sendAcks order =>
    obtain ⟨⟨ret, c2⟩, hx, rfl⟩ := Option.map_eq_some_iff.1 hs
    obtain ⟨ds, hout, hds⟩ := sendAcks_announces hx
    unfold ackBy at ha
    dsimp only at ha
    rw [hout, List.drop_left] at ha
    split at ha
    · rename_i hany
      obtain ⟨d, hd, hctx⟩ := List.any_eq_true.1 hany
      obtain ⟨x, q, h, hx, hq, hhead, hbuf⟩ := hds d hd sid (of_decide_eq_true hctx)
      obtain ⟨ptr, hptr, hq⟩ := Option.bind_eq_some_iff.1 hq
      obtain rfl := hown sid x hx ptr hptr
      rw [hx, Option.bind_some, hq] at ha
      obtain ⟨rfl, rfl⟩ := Prod.mk.inj (Option.some.inj ha)
      have hcompact := hplain _ x hx hbuf
      refine ⟨q, hq, rfl, ?_, ?_⟩
      · show x.ackHandle.sn % 2 ^ 24 = _
        rw [hhead]
        exact Nat.mod_mod _ _
      · simp only [PacketHandle.onWire, hcompact, Bool.false_eq_true, if_false]
        rw [hhead]
        exact Nat.mod_mod _ _
    · cases ha
  | _ => cases ha

end Context

end RapidTransfer
