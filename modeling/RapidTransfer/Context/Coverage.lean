/-
Completion of a multicast send. `getStatus` compares the number of a task with the least tail of its
queue. `completion_covers_replicas` says when that is enough: as long as no call gives a position of the
group's list to another peer once its tail has moved, and every ACK of a peer is for the first group that
lists it, a send that is reported complete was acknowledged in full by every peer the group lists.
-/
import RapidTransfer.Context.Attribution
import RapidTransfer.Context.Completion

namespace RapidTransfer.ContextMcast

open RapidTransfer.Core

/-! ## Tasks -/

/-- The fragment number the queue of a send task has reached: right after the push, the end of the task. -/
def endOf (c : ContextMcast) (t : Task) : Nat :=
  ((c.packetManager.mcastSendQueue t.queue).map (·.ring.secondaryQueue.fragmentId)).getD 0

/-- The task of a send is for the queue of the session, with the number it has reached. -/
def SendTask (c : ContextMcast) (e : Event) (c' : ContextMcast) (t : Task) : Prop :=
  ∀ p bufs, e = .send p bufs →
    t.isSend = true ∧ c.controller.findSession p 0 = some t.queue ∧ t.lastSn = shortSN (endOf c' t)

theorem taskStep {c c' : ContextMcast} {e : Event} (hsend : Sendable c') (hs : step c e = some c') :
    TaskStep (SendTask c e c') c.toCore c'.toCore := by
  cases effect hs with
  | refused _ ho => exact .same (openSession_tasks ho).1 (openSession_tasks ho).2
  | @sendPushed _ _ _ sid ptr _ _ _ x _ _ _ _ _ hf ho hx hptr _ hpush hpu =>
    obtain ⟨hn, ht⟩ := openSession_tasks ho
    obtain rfl := hsend.ptr sid x ptr (by rw [hpu.activeSessionMap]; exact hx) hptr
    refine .pushed hn ht hpu ?_
    rintro p' bufs' he
    cases he
    refine ⟨rfl, hf, ?_⟩
    simp [endOf, hpu.packetManager, PacketManager.setMcastSendQueue, McastSendQueue.push_lastSn hpush]
  | receivePushed _ _ ho _ _ _ _ hpu =>
    obtain ⟨hn, ht⟩ := openSession_tasks ho
    refine .pushed hn ht hpu ?_
    rintro p' bufs' ⟨⟩
  | freed => exact .freed c.toCore _
  | acksSent h =>
    obtain ⟨-, st, m, rfl⟩ := sendAcks_frame h
    exact .same rfl rfl
  | dataSent h =>
    obtain ⟨queues, depth, rfl⟩ := sendDataPackets_frame h
    exact .same rfl rfl
  | dataArrived _ _ _ _ _ h =>
    obtain ⟨q', mv, mem, -, rfl⟩ := receiveData_some h
    exact .same rfl rfl
  | ackArrived _ _ _ _ _ _ h =>
    obtain ⟨cwnd, incr, srtt, rttval, rfl⟩ := receiveAck_some h
    exact .same rfl rfl
  | @completed r =>
    obtain ⟨-, st, m, he⟩ := completeSend_frame c.toCore r
    exact .same (by simp only [he]) (by simp only [he])
  | _ => exact .same rfl rfl

/-! ## Completion -/

theorem mcastRule_short :
    McastRule (fun q bufs => fitsBelow q.ring.head q.ring.secondaryQueue bufs = true) McastSendQueue.Short where
  construct h := .construct h
  push h ha hp := h.push ha hp
  ack index pool h hsn := h.markCompleted index hsn pool
  restamp h ht hr := ⟨by rw [hr.head, hr.secondaryQueue]; exact h.bounded, by rw [hr.head, ht]; exact h.tailsLe⟩

/-- What every state of a run has whose events keep lists and tails together. -/
structure Covered (c0 : ContextMcast) (es : List (Event × Origin)) (c : ContextMcast) : Prop where
  grouped : c.controller.Grouped
  short : Queues McastSendQueue.Short c.packetManager.mcastSendQueue
  sendable : Sendable c
  attributed : Attributed c0 es c

theorem covered_start {cfg : Config} {c0 : ContextMcast} (h : start cfg = some c0) : Covered c0 [] c0 := by
  have hsend := sendable_start h
  obtain ⟨core, hcore, rfl⟩ := Option.map_eq_some_iff.1 h
  obtain ⟨r, -, rfl⟩ := Option.map_eq_some_iff.1 hcore
  refine ⟨.construct _, .none, hsend, ⟨fun id n hn => ?_, fun sid ts hts => ?_, fun addr g hg => ?_,
    fun addr g ts i peer t hg => ?_⟩⟩
  · cases hn
  · cases hts
  · simp [Controller.construct] at hg
  · simp [Controller.construct] at hg

theorem Covered.step {c0 c c' : ContextMcast} {es : List (Event × Origin)} {x : Event × Origin} (h : Covered c0 es c)
    (hrun : Runs.Run ContextMcast.step ok c0 (es.map Prod.fst) c) (hok : Covers c x) (hs : stepFrom c x = some c') :
    Covered c0 (es ++ [x]) c' ∧ Runs.Run ContextMcast.step ok c0 ((es ++ [x]).map Prod.fst) c' := by
  obtain ⟨e, o⟩ := x
  obtain ⟨hok, hcov⟩ := hok
  have hs : ContextMcast.step c e = some c' := hs
  refine ⟨⟨grouped_step h.grouped hcov hs, mcastQueues_step mcastRule_short h.short (fun q bufs hp => ?_) hs,
    h.sendable.step hs, h.attributed.step h.grouped h.short h.sendable hrun hcov hs⟩, ?_⟩
  · cases e with
    | send p bs =>
      have hcov : (mcastPush c (.send p bs)).all
        (fun r => fitsBelow r.1.ring.head r.1.ring.secondaryQueue r.2) = true := hcov
      rw [hp] at hcov
      exact hcov
    | _ => cases hp
  · rw [List.map_append]
    exact .snoc hrun hok hs

theorem covered_run {c0 c1 c : ContextMcast} {es1 es2 : List (Event × Origin)} (h : Covered c0 es1 c1)
    (h1 : Runs.Run step ok c0 (es1.map Prod.fst) c1) (h2 : Runs.Run stepFrom Covers c1 es2 c) :
    Covered c0 (es1 ++ es2) c ∧ Runs.Run step ok c0 ((es1 ++ es2).map Prod.fst) c := by
  induction h2 with
  | nil => rw [List.append_nil]; exact ⟨h, h1⟩
  | snoc _ hok hs ih =>
    rw [← List.append_assoc]
    exact ih.1.step ih.2 hok hs

/-- The number of a send that is reported complete is at or below the tail of every peer that is listed. -/
theorem Covered.lastSn_le {c0 c : ContextMcast} {es : List (Event × Origin)} (h : Covered c0 es c) {addr : String}
    {g : RdmaMulticastContext} (hg : c.controller.multicastContextMap.lookup addr = some g) {id : Nat} {t : Task}
    (ht : c.taskMap id = some t) (hsend : t.isSend = true) (hqueue : t.queue = g.groupId * 256)
    (hst : getStatus c id = some .success) {i : Nat} {peer : String} (hi : g.replicas[i]? = some peer) :
    ∃ ts x, tails c (g.groupId * 256) = some ts ∧ ts[i]? = some x ∧ t.lastSn ≤ x := by
  unfold getStatus at hst
  rw [ht] at hst
  simp only [hsend, if_true] at hst
  obtain ⟨q, hq, hstatus⟩ := Option.map_eq_some_iff.1 hst
  rw [hqueue] at hq
  have hts : tails c (g.groupId * 256) = some q.tailList := by unfold tails; rw [hq]; rfl
  have hlen : i < q.tailList.length := by
    have hnum := h.attributed.numbered _ _ hts
    have hlist := h.attributed.listed addr g hg
    rw [Nat.mul_div_cancel _ (by decide)] at hnum
    rw [hnum] at hlist
    exact lt_of_lt_of_le (List.getElem?_eq_some_iff.1 hi).1 hlist
  refine ⟨_, _, hts, List.getElem?_eq_getElem hlen, ?_⟩
  have hshort := h.short _ q hq
  have hmem := McastSendQueue.getMinTailIndex_mem (List.ne_nil_of_length_pos (Nat.zero_lt_of_lt hlen))
  rw [McastSendQueue.getAckSN, if_pos (.inl (by decide)), McastSendQueue.getNextSN] at hstatus
  have hle := (Context.statusOf_shortSN_iff (hshort.tailsLe _ hmem) hshort.head_lt).1 hstatus
  exact hle.trans (McastSendQueue.getMinTailIndex_le (List.getElem_mem hlen))

/-- In every run whose events keep lists, tails and origins together, a send on a group that is reported complete
in a later state, while its id denotes its task and that is still the group of its address, has all of its fragments
acknowledged by every peer the group then lists. -/
theorem completion_covers_replicas (cfg : Config) (c0 c1 c2 c : ContextMcast) (es1 es2 : List (Event × Origin))
    (o : Origin) (addr : String) (bufs : List Buffer) (h0 : start cfg = some c0)
    (h1 : Runs.Run stepFrom Covers c0 es1 c1)
    (hok : Covers c1 (.send addr bufs, o)) (hs : step c1 (.send addr bufs) = some c2)
    (hnew : c2.nextTaskId ≠ c1.nextTaskId) (h2 : Runs.Run stepFrom Covers c2 es2 c) (t : Task)
    (ht : c2.taskMap c1.nextTaskId = some t) (hkept : c.taskMap c1.nextTaskId = some t) (g1 g : RdmaMulticastContext)
    (hg1 : c1.controller.getMulticastContext addr = some g1) (hg : c.controller.getMulticastContext addr = some g)
    (hsame : g.groupId = g1.groupId) (hst : getStatus c c1.nextTaskId = some .success) :
    ∀ peer ∈ g.replicas, ∀ k < endOf c2 t,
      Acked c0 (es1 ++ [(.send addr bufs, o)] ++ es2) (g.groupId * 256) peer k := by
  obtain ⟨hc1, hr1⟩ := covered_run (covered_start h0) .nil h1
  obtain ⟨hc2, hr2⟩ := hc1.step hr1 hok hs
  obtain ⟨hc, -⟩ := covered_run hc2 hr2 h2
  -- the task is for the group's queue
  obtain ⟨hsend, hfind, hlast⟩ := (taskStep hc2.sendable hs).of_new hnew ht addr bufs rfl
  have hqueue : t.queue = g.groupId * 256 := by
    have hname := hc1.grouped.named addr g1 hg1
    simp only [Controller.findSession, hname, Option.map_some, Option.some.injEq] at hfind
    omega
  have hend : endOf c2 t < 2 ^ 24 := by
    unfold endOf
    cases hq : c2.packetManager.mcastSendQueue t.queue with
    | none => norm_num
    | some q => exact (hc2.short _ q hq).bounded.numbered
  rw [shortSN_of_lt hend] at hlast
  intro peer hpeer k hk
  obtain ⟨i, hi⟩ := List.mem_iff_getElem?.1 hpeer
  obtain ⟨ts, x, hts, hx, hle⟩ := hc.lastSn_le hg hkept hsend hqueue hst hi
  exact hc.attributed.acked addr g ts i peer x hg hts hi hx k (by omega)

/-- A send before the list is set makes a queue without tails, which is complete at once; the list that
is set afterwards is refused and stored. -/
theorem completion_without_tails : ∃ c0 c g t, start (smallConfig 512) = some c0 ∧
    Runs.Run step ok c0 [.joinMulticast "224.0.0.1" true true, .send "224.0.0.1" [⟨100, 2⟩],
      .setMulticastReplicas "224.0.0.1" ["a"]] c ∧
    c.controller.getMulticastContext "224.0.0.1" = some g ∧ g.replicas = ["a"] ∧ c.taskMap 0 = some t ∧ endOf c t = 1 ∧
    getStatus c 0 = some .success ∧
    ∀ es : List (Event × Origin), es.map Prod.fst = [.joinMulticast "224.0.0.1" true true, .send "224.0.0.1" [⟨100, 2⟩],
      .setMulticastReplicas "224.0.0.1" ["a"]] → ¬ Acked c0 es (g.groupId * 256) "a" 0 := by
  obtain ⟨c0, c, h0, hrun, ht⟩ := Runs.exists_run_of_start step ok (start (smallConfig 512))
    [.joinMulticast "224.0.0.1" true true, .send "224.0.0.1" [⟨100, 2⟩], .setMulticastReplicas "224.0.0.1" ["a"]]
    (fun c => ((c.controller.getMulticastContext "224.0.0.1").any fun g : RdmaMulticastContext =>
        decide (g.replicas = ["a"])) &&
      (((c.taskMap 0).any fun t : Task => decide (endOf c t = 1)) && decide (getStatus c 0 = some .success)))
    (by decide +kernel)
  obtain ⟨ht1, ht⟩ := Bool.and_eq_true_iff.1 ht
  obtain ⟨ht2, hst⟩ := Bool.and_eq_true_iff.1 ht
  obtain ⟨g, hg, hlist⟩ := (Option.any_eq_true _ _).1 ht1
  obtain ⟨t, htask, hend⟩ := (Option.any_eq_true _ _).1 ht2
  refine ⟨c0, c, g, t, h0, hrun, hg, of_decide_eq_true hlist, htask, of_decide_eq_true hend, of_decide_eq_true hst, ?_⟩
  rintro es hes ⟨es1, x, es2, _, _, _, _, rfl, -, hack, -⟩
  -- no packet has arrived at all
  have hmem : x.1 ∈ (es1 ++ x :: es2).map Prod.fst := List.mem_map_of_mem (by simp)
  rw [hes] at hmem
  simp only [List.mem_cons, List.not_mem_nil, or_false] at hmem
  rcases hmem with he | he | he
  · rw [he] at hack
    cases hack
  · rw [he] at hack
    cases hack
  · rw [he] at hack
    cases hack

/-- A call, which has no origin. -/
def call (e : Event) : Event × Origin := (e, ⟨"", ""⟩)

/-- With the list set first, the send is complete when the peer's ACK has arrived. -/
theorem completion_covers_replicas_sample : ∃ c0 c1 c2 c g, start (smallConfig 512) = some c0 ∧
    Runs.Run stepFrom Covers c0 [call (.setupConnection "a" 7 [1] [1] true),
      call (.joinMulticast "224.0.0.1" true true), call (.setMulticastReplicas "224.0.0.1" ["a"])] c1 ∧
    step c1 (.send "224.0.0.1" [⟨100, 2⟩]) = some c2 ∧
    Runs.Run stepFrom Covers c2 [(.arrive 0 Context.firstAck none, ⟨"a", "224.0.0.1"⟩)] c ∧
    c.controller.getMulticastContext "224.0.0.1" = some g ∧ getStatus c 0 = some .success ∧
    Acked c0 ([call (.setupConnection "a" 7 [1] [1] true), call (.joinMulticast "224.0.0.1" true true),
      call (.setMulticastReplicas "224.0.0.1" ["a"])] ++ [call (.send "224.0.0.1" [⟨100, 2⟩])] ++
      [(.arrive 0 Context.firstAck none, ⟨"a", "224.0.0.1"⟩)]) (g.groupId * 256) "a" 0 := by
  obtain ⟨c0, c1, h0, hrun, ht⟩ := Runs.exists_run_of_start stepFrom Covers (start (smallConfig 512))
    [call (.setupConnection "a" 7 [1] [1] true), call (.joinMulticast "224.0.0.1" true true),
      call (.setMulticastReplicas "224.0.0.1" ["a"])]
    (fun c1 => decide (c1.nextTaskId = 0 ∧ c1.controller.getMulticastContext "224.0.0.1" = some ⟨1, ["a"]⟩ ∧
        Covers c1 (call (.send "224.0.0.1" [⟨100, 2⟩]))) &&
      (step c1 (.send "224.0.0.1" [⟨100, 2⟩])).any fun c2 : ContextMcast =>
        decide (c2.nextTaskId = 1 ∧ c2.taskMap 0 = some ⟨256, 1, true, 256⟩ ∧ 0 < endOf c2 ⟨256, 1, true, 256⟩) &&
        (Runs.exec stepFrom Covers c2 [(.arrive 0 Context.firstAck none, ⟨"a", "224.0.0.1"⟩)]).any
          fun c : ContextMcast => decide (getStatus c 0 = some .success ∧ c.taskMap 0 = some ⟨256, 1, true, 256⟩ ∧
            c.controller.getMulticastContext "224.0.0.1" = some ⟨1, ["a"]⟩)) (by decide +kernel)
  obtain ⟨hpre, ht⟩ := Bool.and_eq_true_iff.1 ht
  obtain ⟨hid, hg1, hok⟩ := of_decide_eq_true hpre
  obtain ⟨c2, hc2, ht⟩ := (Option.any_eq_true _ _).1 ht
  obtain ⟨htask, ht⟩ := Bool.and_eq_true_iff.1 ht
  obtain ⟨hnext, htask, hend⟩ := of_decide_eq_true htask
  obtain ⟨c, hc, hx⟩ := (Option.any_eq_true _ _).1 ht
  obtain ⟨hst, hkept, hg⟩ := of_decide_eq_true hx
  exact ⟨c0, c1, c2, c, _, h0, hrun, hc2, Runs.run_of_exec hc, hg, hst,
    completion_covers_replicas _ c0 c1 c2 c _ _ _ _ _ h0 hrun hok hc2 (by omega) (Runs.run_of_exec hc) _
      (by rw [hid]; exact htask) (by rw [hid]; exact hkept) _ _ hg1 hg rfl (by rw [hid]; exact hst) "a"
        (by simp) 0 hend⟩

end RapidTransfer.ContextMcast
