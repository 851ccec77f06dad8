/-
When `getStatus` may be believed. A task keeps the low 24 bits of its last fragment number, and the
comparison with the queue's own numbers is right while none of them has wrapped: `completion_sound`
says that in every run that pushes fewer than `2^24` fragments on each queue, a task that is reported
complete has all of its fragments acknowledged, respectively received.
-/
import RapidTransfer.Context.Queues
import RapidTransfer.Queue.Bound

namespace RapidTransfer

namespace Context

open RapidTransfer.Core

/-! ## Tasks -/

/-- The fragment number a task's queue has reached: right after the push, the end of the task. -/
def endOf (c : Core) (t : Task) : Nat :=
  if t.isSend then ((c.packetManager.sendQueue t.queue).map (·.ring.secondaryQueue.fragmentId)).getD 0
  else ((c.packetManager.receiveQueue t.queue).map (·.secondaryQueue.fragmentId)).getD 0

/-- `tail_` of the task's queue. -/
def tailOf (c : Core) (t : Task) : Nat :=
  if t.isSend then ((c.packetManager.sendQueue t.queue).map (·.tail)).getD 0
  else ((c.packetManager.receiveQueue t.queue).map (·.tail)).getD 0

/-- The task's queue is there, and its `tail_` has reached `n`. -/
def Reached (c : Core) (t : Task) (n : Nat) : Prop :=
  if t.isSend then ∃ q, c.packetManager.sendQueue t.queue = some q ∧ n ≤ q.tail
  else ∃ q, c.packetManager.receiveQueue t.queue = some q ∧ n ≤ q.tail

/-- A push that is accepted makes a task with the number its queue has reached. -/
theorem taskStep {c c' : Core} {e : Event} (hs : step c e = some c') :
    TaskStep (fun t => t.lastSn = shortSN (endOf c' t) ∧ Reached c' t 0) c c' := by
  cases effect hs with
  | refused _ ho => exact .same (openSession_tasks ho).1 (openSession_tasks ho).2
  | sendPushed _ ho _ _ _ hpush hpu =>
    obtain ⟨hn, ht⟩ := openSession_tasks ho
    refine .pushed hn ht hpu ?_
    simp [endOf, Reached, hpu.packetManager, PacketManager.setSendQueue, SendQueue.push_lastSn hpush]
  | receivePushed _ ho _ _ _ hpush hpu =>
    obtain ⟨hn, ht⟩ := openSession_tasks ho
    refine .pushed hn ht hpu ?_
    simp [endOf, Reached, hpu.packetManager, PacketManager.setReceiveQueue, ReceiveQueue.push_lastSn hpush]
  | freed => exact .freed c _
  | acksSent h =>
    obtain ⟨-, st, m, rfl⟩ := sendAcks_frame h
    exact .same rfl rfl
  | dataSent h =>
    have : c'.nextTaskId = c.nextTaskId ∧ c'.taskMap = c.taskMap := by
      refine sendDataPackets_rule (P := fun x => x.nextTaskId = c.nextTaskId ∧ x.taskMap = c.taskMap)
        (fun x sid b x' r hP hs => ?_) ⟨rfl, rfl⟩ h
      obtain rfl | ⟨e, ptr, q, q', st, ds, -, -, -, -, -, -, -, rfl⟩ := sendSession_some hs
      · exact hP
      · exact hP
    exact .same this.1 this.2
  | dataArrived _ _ _ _ _ h =>
    obtain ⟨q', mv, mem, -, rfl⟩ := receiveData_some h
    exact .same rfl rfl
  | ackArrived _ _ _ _ _ h =>
    obtain ⟨cwnd, incr, srtt, rttval, rfl⟩ := receiveAck_some h
    exact .same rfl rfl
  | @completed r =>
    obtain ⟨-, st, m, he⟩ := completeSend_frame c r
    rw [he]
    exact .same rfl rfl
  | _ => exact .same rfl rfl

/-- The event makes a task under this id: the call is accepted while `next_task_id_` is at it. -/
def makesTask (id : Nat) (c : Core) (e : Event) : Bool :=
  (step c e).any fun c' => decide (c.nextTaskId = id ∧ c'.nextTaskId ≠ id)

/-- A task stays as it was made until it is freed, while its id is not given again. -/
theorem task_run {ok : Core → Event → Prop} {c c' : Core} {es : List Event} {id : Nat} {t : Task}
    (hrun : Runs.Run step ok c es c') (hid : ∀ x f, ok x f → makesTask id x f = false)
    (h : c.taskMap id = some t ∨ c.taskMap id = none) : c'.taskMap id = some t ∨ c'.taskMap id = none := by
  refine hrun.invariant (P := fun x => x.taskMap id = some t ∨ x.taskMap id = none) h fun x f x' hx hok hs => ?_
  refine (taskStep hs).kept ?_ hx
  have hnot := hid x f hok
  simp only [makesTask, hs, Option.any_some, decide_eq_false_iff_not] at hnot
  omega

/-! ## Queues that do not wrap -/

/-- The buffers the event pushes leave its queue below `2^24` fragments. -/
def pushFits (c : Core) (e : Event) : Bool :=
  (sendPush c e).all (fun r => fitsBelow r.1.ring.head r.1.ring.secondaryQueue r.2) &&
    (receivePush c e).all fun r => fitsBelow r.1.head r.1.secondaryQueue r.2

theorem sendRule_short :
    SendRule (fun q bufs => fitsBelow q.ring.head q.ring.secondaryQueue bufs = true) SendQueue.Short where
  construct h := .construct h
  push h ha hp := h.push ha hp
  ack pool h hsn := h.markCompleted hsn pool
  restamp h ht hr := ⟨by rw [hr.head, hr.secondaryQueue]; exact h.bounded, by rw [hr.head, ht]; exact h.tailLe⟩

theorem receiveRule_short :
    ReceiveRule (fun q bufs => fitsBelow q.head q.secondaryQueue bufs = true) ReceiveQueue.Short where
  construct h := .construct h
  push h ha hp := h.push ha hp
  data h hm := h.markCompleted hm

/-- No queue has wrapped. -/
structure Unwrapped (c : Core) : Prop where
  send : Queues SendQueue.Short c.packetManager.sendQueue
  receive : Queues ReceiveQueue.Short c.packetManager.receiveQueue

theorem unwrapped_start {cfg : Config} {c : Core} (h : start cfg = some c) : Unwrapped c := by
  obtain ⟨r, -, rfl⟩ := Option.map_eq_some_iff.1 h
  exact ⟨.none, .none⟩

theorem Unwrapped.step {c c' : Core} {e : Event} (h : Unwrapped c) (hfits : pushFits c e = true)
    (hs : Context.step c e = some c') : Unwrapped c' := by
  obtain ⟨hsend, hreceive⟩ := Bool.and_eq_true_iff.1 hfits
  refine ⟨sendQueues_step sendRule_short h.send (fun q bufs hp => ?_) hs,
    receiveQueues_step receiveRule_short h.receive (fun q bufs hp => ?_) hs⟩
  · rw [hp] at hsend; exact hsend
  · rw [hp] at hreceive; exact hreceive

theorem Unwrapped.run {c c' : Core} {es : List Event} (h : Unwrapped c)
    (hrun : Runs.Run Context.step (fun x f => ok x f ∧ pushFits x f = true) c es c') : Unwrapped c' :=
  hrun.invariant h fun _ _ _ hx hok hs => hx.step hok.2 hs


/-! ## Completion -/

/-- On numbers that have not wrapped, the comparison of `getStatus` is the plain one. -/
theorem statusOf_iff {last ack next : Nat} (hle : ack ≤ next) : statusOf last ack next = .success ↔ last ≤ ack := by
  unfold statusOf
  rw [if_pos hle]
  split
  · rename_i h; simp [h]
  · rename_i h; simp [h]

/-- The same for the numbers of a queue. -/
theorem statusOf_shortSN_iff {last tail head : Nat} (hle : tail ≤ head) (hlt : head < 2 ^ 24) :
    statusOf last (shortSN tail) (shortSN head) = .success ↔ last ≤ tail := by
  rw [shortSN_of_lt (by omega), shortSN_of_lt hlt]
  exact statusOf_iff hle

/-- A task is reported complete when the tail of its queue has reached its number. -/
theorem Unwrapped.getStatus_iff {c : Core} (h : Unwrapped c) {id : Nat} {t : Task} (ht : c.taskMap id = some t) :
    getStatus c id = some .success ↔ Reached c t t.lastSn := by
  have hsend : ∀ q, c.packetManager.sendQueue t.queue = some q →
      (statusOf t.lastSn q.getAckSN q.getNextSN = .success ↔ t.lastSn ≤ q.tail) := by
    intro q hq
    exact statusOf_shortSN_iff (h.send _ q hq).tailLe (h.send _ q hq).head_lt
  have hreceive : ∀ q, c.packetManager.receiveQueue t.queue = some q →
      (statusOf t.lastSn q.getAckSN q.getNextSN = .success ↔ t.lastSn ≤ q.tail) := by
    intro q hq
    exact statusOf_shortSN_iff (h.receive _ q hq).tailLe (h.receive _ q hq).head_lt
  unfold getStatus Reached
  rw [ht]
  simp only
  split
  · rw [Option.map_eq_some_iff]
    exact exists_congr fun q => and_congr_right fun hq => hsend q hq
  · rw [Option.map_eq_some_iff]
    exact exists_congr fun q => and_congr_right fun hq => hreceive q hq

theorem Reached.le_tailOf {c : Core} {t : Task} {n : Nat} (h : Reached c t n) : n ≤ tailOf c t := by
  unfold Reached at h
  unfold tailOf
  split at h
  · rename_i his
    obtain ⟨q, hq, hle⟩ := h
    rw [if_pos his, hq]
    exact hle
  · rename_i his
    obtain ⟨q, hq, hle⟩ := h
    rw [if_neg his, hq]
    exact hle

theorem Unwrapped.endOf_lt {c : Core} (h : Unwrapped c) (t : Task) : endOf c t < 2 ^ 24 := by
  unfold endOf
  split
  · cases hq : c.packetManager.sendQueue t.queue with
    | none => norm_num
    | some q => exact (h.send _ q hq).bounded.numbered
  · cases hq : c.packetManager.receiveQueue t.queue with
    | none => norm_num
    | some q => exact (h.receive _ q hq).bounded.numbered

/-- In every run whose pushes leave their queues below `2^24` fragments, a task that an event made and that its id
still denotes when it is reported complete has its end at or below the tail of its queue. -/
theorem completion_sound (cfg : Config) (c0 c1 c2 c : Core) (es1 es2 : List Event) (e : Event)
    (h0 : start cfg = some c0) (h1 : Runs.Run step (fun x f => ok x f ∧ pushFits x f = true) c0 es1 c1)
    (hok : ok c1 e ∧ pushFits c1 e = true) (hs : step c1 e = some c2) (hnew : c2.nextTaskId ≠ c1.nextTaskId)
    (h2 : Runs.Run step (fun x f => ok x f ∧ pushFits x f = true) c2 es2 c) (t : Task)
    (ht : c2.taskMap c1.nextTaskId = some t) (hkept : c.taskMap c1.nextTaskId = some t)
    (hst : getStatus c c1.nextTaskId = some .success) :
    endOf c2 t ≤ tailOf c t := by
  have hu2 := ((unwrapped_start h0).run h1).step hok.2 hs
  have hu := hu2.run h2
  obtain ⟨hlast, -⟩ := (taskStep hs).of_new hnew ht
  rw [shortSN_of_lt (hu2.endOf_lt t)] at hlast
  rw [← hlast]
  exact ((hu.getStatus_iff hkept).1 hst).le_tailOf

/-- A send of `2^24` fragments is complete at once. -/
theorem completion_wrapped : ∃ c0 c q, start (smallConfig 256) = some c0 ∧
    Runs.Run step ok c0 [.setupConnection "a" 7 [1] [1] true, .send "a" [⟨100, 2 ^ 25⟩]] c ∧
    getStatus c 0 = some .success ∧ c.packetManager.sendQueue 0 = some q ∧
    q.ring.secondaryQueue.fragmentId = 2 ^ 24 ∧ q.tail = 0 := by
  obtain ⟨c0, c, h0, hrun, ht⟩ := Runs.exists_run_of_start step ok (start (smallConfig 256))
    [.setupConnection "a" 7 [1] [1] true, .send "a" [⟨100, 2 ^ 25⟩]]
    (fun c => decide (getStatus c 0 = some .success) && (c.packetManager.sendQueue 0).any fun q : SendQueue =>
      decide (q.ring.secondaryQueue.fragmentId = 2 ^ 24) && decide (q.tail = 0)) (by decide +kernel)
  obtain ⟨ht1, ht2⟩ := Bool.and_eq_true_iff.1 ht
  obtain ⟨q, hq, hx⟩ := (Option.any_eq_true _ _).1 ht2
  obtain ⟨hx1, hx2⟩ := Bool.and_eq_true_iff.1 hx
  exact ⟨c0, c, q, h0, hrun, of_decide_eq_true ht1, hq, of_decide_eq_true hx1, of_decide_eq_true hx2⟩

/-- An ACK for the first fragment. -/
def firstAck : Arrival := ⟨7, 1, some (2 ^ 6 + 2 ^ 8), List.replicate (pktHdrSize + grhSize) 1⟩

/-- One fragment is sent and acknowledged. -/
theorem completion_sound_sample : ∃ c0 c1 c2 c t, start (smallConfig 256) = some c0 ∧
    Runs.Run step (fun x f => ok x f ∧ pushFits x f = true) c0 [.setupConnection "a" 7 [1] [1] true] c1 ∧
    step c1 (.send "a" [⟨100, 2⟩]) = some c2 ∧
    Runs.Run step (fun x f => ok x f ∧ pushFits x f = true) c2 [.arrive 0 firstAck] c ∧
    getStatus c 0 = some .success ∧ endOf c2 t ≤ tailOf c t := by
  obtain ⟨c0, c1, h0, hrun, ht⟩ := Runs.exists_run_of_start step (fun x f => ok x f ∧ pushFits x f = true)
    (start (smallConfig 256)) [.setupConnection "a" 7 [1] [1] true]
    (fun c1 => decide (c1.nextTaskId = 0 ∧ ok c1 (.send "a" [⟨100, 2⟩]) ∧ pushFits c1 (.send "a" [⟨100, 2⟩]) = true) &&
      (step c1 (.send "a" [⟨100, 2⟩])).any fun c2 : Core =>
        decide (c2.nextTaskId = 1 ∧ c2.taskMap 0 = some ⟨0, 1, true, 0⟩) &&
        (Runs.exec step (fun x f => ok x f ∧ pushFits x f = true) c2 [.arrive 0 firstAck]).any fun c =>
          decide (getStatus c 0 = some .success ∧ c.taskMap 0 = some ⟨0, 1, true, 0⟩)) (by decide +kernel)
  obtain ⟨hok, ht⟩ := Bool.and_eq_true_iff.1 ht
  obtain ⟨hid, hok⟩ := of_decide_eq_true hok
  obtain ⟨c2, hc2, ht⟩ := (Option.any_eq_true _ _).1 ht
  obtain ⟨htask, ht⟩ := Bool.and_eq_true_iff.1 ht
  obtain ⟨hnext, htask⟩ := of_decide_eq_true htask
  obtain ⟨c, hc, hst⟩ := (Option.any_eq_true _ _).1 ht
  obtain ⟨hst, hkept⟩ := of_decide_eq_true hst
  exact ⟨c0, c1, c2, c, _, h0, hrun, hc2, Runs.run_of_exec hc, hst,
    completion_sound _ c0 c1 c2 c _ _ _ h0 hrun hok hc2 (by omega) (Runs.run_of_exec hc) _
      (by rw [hid]; exact htask) (by rw [hid]; exact hkept) (by rw [hid]; exact hst)⟩

end Context

end RapidTransfer
