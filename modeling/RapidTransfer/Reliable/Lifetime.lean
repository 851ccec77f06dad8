/-
The lifetime of requests in the reliable protocol. A task owns its requests and `task_map_` owns the task, but a queue
pair holds the addresses of requests in `wr_id`, and a completion is written through them. `freeTask` does not ask
whether requests of the task are outstanding, so a completion may find its request destroyed
(`completion_of_freed_task`). Nor does `allocateTask` when it gives out an id again, which drops the task that had it.

A driver takes its steps one at a time here, with the calls of other threads between any two of them: it takes a task,
posts it, and works on the completions of the two queues one by one. `Driven.drives_round` says that the calls of
`runStep` and the rounds of the worker are runs of these steps. A task that a driver has taken is kept by the
driver's own pointer until it is posted, and by nothing after that.
-/
import RapidTransfer.Reliable.Tasks

namespace RapidTransfer.Reliable

/-! ## Drivers in steps -/

/-- Where a driver is in its round. -/
inductive Phase
  | idle
  | taken
  | polling (cq : RequestType)
  deriving DecidableEq, Repr

structure Driven where
  protocol : Protocol
  phase : Phase

namespace Protocol

/-- The count a driver compares with the depth: `runStep` starts it at zero. -/
def counted (s : Protocol) : Nat := if s.spawnWorker then s.inflightRequests else 0

/-- The count outlives a round of the worker only. -/
def recount (s : Protocol) (n : Nat) : Protocol := if s.spawnWorker then { s with inflightRequests := n } else s

/-- The end of a round: the local variable of `runStep` is gone. -/
def letGo (s : Protocol) : Protocol := if s.spawnWorker then s else { s with task := none }

end Protocol

namespace Driven

inductive Action
  | send (peerName : String) (bufferList : List Buffer) (created : Bool)
  | receive (peerName : String) (bufferList : List Buffer) (created : Bool)
  | freeTask (id : Nat)
  | take
  | post (badWr : Option Nat)
  | complete (wc : Completion)
  | next

def step (x : Driven) : Action → Option Driven
  | .send peerName bufferList created => some { x with protocol := (x.protocol.send peerName bufferList created).2 }
  | .receive peerName bufferList created =>
    some { x with protocol := (x.protocol.receive peerName bufferList created).2 }
  | .freeTask id => some { x with protocol := x.protocol.freeTask id }
  | .take =>
    match x.phase with
    | .idle => some ⟨x.protocol.takeTask, .taken⟩
    | _ => none
  | .post badWr =>
    match x.phase with
    | .taken => (x.protocol.postTask x.protocol.counted badWr).map fun r => ⟨r.2.recount r.1, .polling .send⟩
    | _ => none
  | .complete wc =>
    match x.phase with
    | .polling cq => (x.protocol.complete cq wc).map fun s => ⟨s.recount (s.inflightRequests - 1), .polling cq⟩
    | _ => none
  | .next =>
    match x.phase with
    | .polling .send => some { x with phase := .polling .receive }
    | .polling .receive => some ⟨x.protocol.letGo, .idle⟩
    | _ => none

end Driven

namespace Protocol

/-! ## Requests that exist -/

/-- Every request that a completion may name belongs to a task that has not been destroyed. -/
def Live (s : Protocol) : Prop := ∀ w ∈ s.outstanding, s.statusAt w.taskId w.index ≠ none

theorem taskMap_freeTask_self (s : Protocol) (id : Nat) : (s.freeTask id).taskMap (s.taskOf id) = none :=
  Function.update_self _ _ _

theorem taskMap_freeTask_of_ne (s : Protocol) {id id' : Nat} (h : id' ≠ s.taskOf id) :
    (s.freeTask id).taskMap id' = s.taskMap id' :=
  Function.update_of_ne h _ _

theorem statusAt_of_none {s : Protocol} {id i : Nat} (h : s.taskMap id = none) : s.statusAt id i = none := by
  unfold statusAt
  rw [h]
  rfl

theorem live_freeTask_iff {s : Protocol} (h : s.Live) (id : Nat) :
    (s.freeTask id).Live ↔ ∀ w ∈ s.outstanding, w.taskId ≠ s.taskOf id := by
  constructor
  · intro hlive w hw he
    refine hlive w hw (statusAt_of_none ?_)
    rw [he]
    exact taskMap_freeTask_self s id
  · intro hne w hw
    have hst := h w hw
    unfold statusAt at hst ⊢
    rwa [taskMap_freeTask_of_ne s (hne w hw)]

/-- A call that is given an id again drops the task that had it. -/
theorem live_enqueued_iff {s s' : Protocol} (h : s.Live) (hissued : ∀ w ∈ s.outstanding, w.taskId < s.nextTaskId)
    {bufferList : List Buffer} (he : Enqueued s bufferList s') :
    s'.Live ↔ ∀ id ∈ s.predecessor, ∀ w ∈ s.outstanding, w.taskId ≠ id := by
  unfold Live
  rw [he.outstanding]
  constructor
  · rintro hlive id hid w hw rfl
    refine hlive w hw (statusAt_of_none ?_)
    rw [he.taskMap_of_ne (hissued w hw).ne]
    exact if_pos (mem_predecessor.1 hid)
  · intro hne w hw
    rw [he.statusAt_others (hissued w hw).ne fun hx => hne _ (mem_predecessor.2 hx) w hw rfl]
    exact h w hw

/-- A completion is processed exactly when its request exists. -/
theorem complete_isSome_iff {s : Protocol} {wc : Completion} (hmem : wc.request ∈ s.outstanding) :
    (s.complete wc.request.type wc).isSome = true ↔ (s.taskMap wc.request.taskId).isSome = true := by
  unfold complete
  rw [if_pos ⟨hmem, rfl⟩]
  cases s.taskMap wc.request.taskId <;> simp

/-- A task is in one place: in the queue, in the hands of the driver, or on a queue pair. While it is in hand or has
requests outstanding it is in the map. -/
structure Owned (s : Protocol) : Prop extends OnePlace s where
  live : s.Live

namespace Owned

variable {s s' : Protocol}

theorem start (spawnWorker : Bool) (maxWrPerQp : Nat) (regions : List MemoryRegion) (connected : List String) :
    Owned (start spawnWorker maxWrPerQp regions connected) := by
  refine ⟨.start spawnWorker maxWrPerQp regions connected, ?_⟩
  rintro w ⟨⟩

theorem enqueue (h : Owned s) (hfree : s.IdFree) {bufferList : List Buffer} (he : Enqueued s bufferList s') :
    Owned s' := by
  refine ⟨h.toOnePlace.enqueue hfree he, ?_⟩
  rw [live_enqueued_iff h.live (fun w hw => (h.posted w hw).2) he]
  exact fun id hid => (hfree id hid).2.1

theorem freeTask (h : Owned s) {id : Nat} (hunused : s.Unused (s.taskOf id)) : Owned (s.freeTask id) := by
  refine ⟨⟨h.nodup, h.issued, ?_, h.posted⟩, ?_⟩
  · intro id' t ht
    have hne : id' ≠ s.taskOf id := by
      rintro rfl
      exact hunused.2 t ht
    rw [taskMap_freeTask_of_ne s hne]
    exact h.held id' t ht
  · exact (live_freeTask_iff h.live id).2 hunused.1

theorem takeTask (h : Owned s) : Owned s.takeTask := by
  refine ⟨h.toOnePlace.takeTask, fun w hw => ?_⟩
  rw [takeTask_statusAt]
  exact h.live w (takeTask_outstanding s ▸ hw)

theorem submitted (h : Owned s) {id n : Nat} {t : Task} (ht : s.task = some (id, t)) (hn : n ≤ t.requestList.length)
    (hsub : Submitted s id t n s') : Owned { s' with task := none } := by
  refine ⟨h.toOnePlace.submitted ht hsub, fun w hw => ?_⟩
  have hstatus : ∀ id' i, s.statusAt id' i ≠ none → s'.statusAt id' i ≠ none := by
    intro id' i hst
    rw [hsub.status]
    split
    · rwa [ne_eq, Option.map_eq_none_iff]
    · exact hst
  have hw : w ∈ s'.outstanding := hw
  rw [hsub.outstanding, List.mem_append] at hw
  refine hstatus w.taskId w.index ?_
  rcases hw with hw | hw
  · exact h.live w hw
  · -- the request is one of the task that was in hand
    obtain ⟨i, hi, rfl⟩ := List.mem_map.1 hw
    have hi : i < t.requestList.length := (List.mem_range.1 hi).trans_le hn
    simp [statusAt, (h.held id t ht).1, hi]

theorem completed (h : Owned s) {wc : Completion} (hc : Completed s wc s') : Owned s' := by
  refine ⟨h.toOnePlace.completed hc, fun w hw => ?_⟩
  rw [hc.outstanding] at hw
  have hst := h.live w (List.mem_of_mem_erase hw)
  rw [hc.status]
  split
  · rwa [ne_eq, Option.map_eq_none_iff]
  · exact hst

theorem letGo (h : Owned s) : Owned s.letGo := by
  unfold Protocol.letGo
  split
  · exact h
  · exact ⟨h.toOnePlace.release, h.live⟩

theorem recount (h : Owned s) (n : Nat) : Owned (s.recount n) := by
  unfold Protocol.recount
  split
  · exact ⟨⟨h.nodup, h.issued, h.held, h.posted⟩, h.live⟩
  · exact h

theorem postTask (h : Owned s) {inflight n : Nat} {badWr : Option Nat} (hp : s.postTask inflight badWr = some (n, s')) :
    Owned s' := by
  obtain ⟨-, -, rfl⟩ | ⟨id, t, htask, ⟨-, -, rfl⟩ | ⟨ret, x, -, hsub, -, rfl⟩⟩ := postTask_some hp
  · exact h
  · exact h
  · obtain ⟨d, k, -, hpos, hret, hk, -, hsub⟩ := submit_some (size_of_some (h.held id t htask).1) hsub
    exact h.submitted htask (by omega) hsub

end Owned

/-! ## A free at the wrong time -/

/-- A task that is freed in the hands of a driver: what it puts on a queue pair is not there when it completes. -/
theorem live_postTask_freed_iff {s s' : Protocol} (h : Owned s) {id inflight n : Nat} {t : Task} {badWr : Option Nat}
    (ht : s.task = some (id, t)) (hp : (s.freeTask id).postTask inflight badWr = some (n, s')) :
    s'.Live ↔ s'.outstanding = s.outstanding := by
  have hself : s.taskOf id = id := h.taskOf_eq (.inr ⟨t, ht⟩)
  have hne : ∀ w ∈ s.outstanding, w.taskId ≠ id := fun w hw he => (h.posted w hw).1 (he ▸ .inr ⟨t, ht⟩)
  have hfreed : (s.freeTask id).Live := (live_freeTask_iff h.live id).2 (hself.symm ▸ hne)
  have htask : (s.freeTask id).task = some (id, t) := ht
  obtain ⟨hnone, -, rfl⟩ | ⟨id', t', ht', ⟨-, -, rfl⟩ | ⟨ret, x, -, hsub, -, rfl⟩⟩ := postTask_some hp
  · rw [htask] at hnone
    cases hnone
  · exact iff_of_true hfreed rfl
  · rw [htask] at ht'
    cases ht'
    have hstatus : ∀ (y : Protocol) (f : List Request → List Request) (i : Nat), y.taskMap id = none →
        (y.modifyTask id f).statusAt id i = none := by
      intro y f i hy
      rw [statusAt_modifyTask, if_pos rfl, hy]
      rfl
    have hgone : (s.freeTask id).taskMap id = none := by
      have := taskMap_freeTask_self s id
      rwa [hself] at this
    obtain ⟨m, rfl⟩ | ⟨k, l, m, rfl⟩ := submit_cases hsub
    · refine iff_of_true ?_ rfl
      intro w hw
      have hw : w ∈ s.outstanding := hw
      show ((s.freeTask id).modifyTask id _).statusAt w.taskId w.index ≠ none
      rw [statusAt_modifyTask, if_neg (hne w hw)]
      exact hfreed w hw
    · have hgone' : (((s.freeTask id).enlist t.type id t k).modifyTask id (failRange k l)).taskMap id = none := by
        simp [modifyTask, enlist, addDepth, hgone]
      show (∀ w ∈ s.outstanding ++ (List.range k).map fun i => WorkRequest.mk t.type t.endpoint id i, _) ↔
        s.outstanding ++ (List.range k).map (fun i => WorkRequest.mk t.type t.endpoint id i) = s.outstanding
      constructor
      · intro hlive
        rw [List.append_right_eq_self, List.map_eq_nil_iff, List.range_eq_nil]
        by_contra hk
        refine hlive ⟨t.type, t.endpoint, id, 0⟩ (List.mem_append_right _ ?_) (hstatus _ _ 0 hgone')
        exact List.mem_map_of_mem (List.mem_range.2 (Nat.pos_of_ne_zero hk))
      · intro heq w hw
        rw [heq] at hw
        have hid := hne w hw
        show ((((s.freeTask id).enlist t.type id t k).modifyTask id _).modifyTask id _).statusAt w.taskId w.index ≠ none
        rw [statusAt_modifyTask, if_neg hid, statusAt_modifyTask, if_neg hid]
        exact hfreed w hw

end Protocol

/-! ## Whole rounds -/

namespace Protocol

variable {s s' : Protocol}

theorem recount_of_worker (h : s.spawnWorker = true) (n : Nat) :
    s.recount n = { s with inflightRequests := n } := if_pos h

theorem recount_of_step (h : s.spawnWorker = false) (n : Nat) : s.recount n = s := if_neg (by simp [h])

theorem recount_pred (s : Protocol) (n : Nat) :
    (s.recount n).recount ((s.recount n).inflightRequests - 1) = s.recount (n - 1) := by
  cases hw : s.spawnWorker with
  | false => rw [recount_of_step hw, recount_of_step hw, recount_of_step hw]
  | true =>
    rw [recount_of_worker hw, recount_of_worker hw]
    exact recount_of_worker (s := { s with inflightRequests := n }) hw _

/-- A completion does not look at the count. -/
theorem complete_recount {cq : RequestType} {wc : Completion} (h : s.complete cq wc = some s') (n : Nat) :
    (s.recount n).complete cq wc = some (s'.recount n) := by
  have hworker := (complete_some h).spawnWorker
  cases hw : s.spawnWorker with
  | false =>
    rw [recount_of_step hw, recount_of_step (hworker.trans hw)]
    exact h
  | true =>
    rw [recount_of_worker hw, recount_of_worker (hworker.trans hw)]
    unfold complete at h ⊢
    split at h
    · rename_i hmem
      rw [if_pos hmem]
      simp only
      split at h
      · cases h
      · cases h
        rfl
    · cases h

theorem spawnWorker_postTask {inflight n : Nat} {badWr : Option Nat} (h : s.postTask inflight badWr = some (n, s')) :
    s'.spawnWorker = s.spawnWorker := by
  obtain ⟨-, -, rfl⟩ | ⟨id, t, -, ⟨-, -, rfl⟩ | ⟨ret, x, -, hsub, -, rfl⟩⟩ := postTask_some h
  · rfl
  · rfl
  · obtain ⟨m, rfl⟩ | ⟨k, l, m, rfl⟩ := submit_cases hsub
    · rfl
    · rfl

end Protocol

namespace Driven

open Protocol

variable {x x' : Driven} {ok : Driven → Action → Prop}

/-- The steps of one round. -/
def round (badWr : Option Nat) (sendWc recvWc : List Completion) : List Action :=
  .take :: .post badWr :: (sendWc.map .complete ++ .next :: (recvWc.map .complete ++ [.next]))

theorem polls {cq : RequestType} (hok : ∀ x wc, ok x (.complete wc)) {as : List Action} : ∀ {wcs : List Completion}
    {s s' : Protocol} {n : Nat}, completeAll cq wcs s = some s' →
    Runs.Run step ok ⟨s'.recount (n - wcs.length), .polling cq⟩ as x →
    Runs.Run step ok ⟨s.recount n, .polling cq⟩ (wcs.map .complete ++ as) x
  | [], s, s', n, hc, hrun => by
    cases hc
    exact hrun
  | wc :: wcs, s, s', n, hc, hrun => by
    obtain ⟨s1, h1, hc⟩ := Option.bind_eq_some_iff.1 hc
    have hstep : step ⟨s.recount n, .polling cq⟩ (.complete wc) = some ⟨s1.recount (n - 1), .polling cq⟩ := by
      simp only [step, complete_recount h1, Option.map_some, recount_pred]
    refine .cons (hok _ wc) hstep (polls hok hc ?_)
    rw [Nat.sub_sub, Nat.add_comm 1]
    exact hrun

theorem drives {s s' : Protocol} {badWr : Option Nat} {sendWc recvWc : List Completion} {n : Nat}
    (hok : ∀ x, ok x .take ∧ ok x (.post badWr) ∧ ok x .next ∧ ∀ wc, ok x (.complete wc))
    (h : s.drive s.takeTask.counted badWr sendWc recvWc = some (n, s')) :
    Runs.Run step ok ⟨s, .idle⟩ (round badWr sendWc recvWc) ⟨(s'.recount n).letGo, .idle⟩ := by
  obtain ⟨m, s1, s2, hpost, hsend, hrecv, rfl⟩ := drive_some h
  unfold poll at hsend hrecv
  split at hsend
  · split at hrecv
    · have hposted : step ⟨s.takeTask, .taken⟩ (.post badWr) = some ⟨s1.recount m, .polling .send⟩ := by
        simp only [step, hpost, Option.map_some]
      refine .cons (hok _).1 rfl (.cons (hok _).2.1 hposted (polls (fun x => (hok x).2.2.2) hsend ?_))
      refine .cons (hok _).2.2.1 rfl (polls (fun x => (hok x).2.2.2) hrecv ?_)
      exact .cons (hok _).2.2.1 rfl .nil
    · cases hrecv
  · cases hsend

/-- A call of `runStep` without a worker, and a round of the worker, are runs of the steps. -/
theorem drives_round {s s' : Protocol} {badWr : Option Nat} {sendWc recvWc : List Completion}
    (hok : ∀ x, ok x .take ∧ ok x (.post badWr) ∧ ok x .next ∧ ∀ wc, ok x (.complete wc))
    (hidle : s.spawnWorker = false → s.task = none)
    (h : (s.spawnWorker = false ∧ Protocol.step s (.runStep badWr sendWc recvWc) = some s') ∨
      Protocol.step s (.worker badWr sendWc recvWc) = some s') :
    Runs.Run step ok ⟨s, .idle⟩ (round badWr sendWc recvWc) ⟨s', .idle⟩ := by
  have hspawn : ∀ {inflight n : Nat} {s1 : Protocol}, s.drive inflight badWr sendWc recvWc = some (n, s1) →
      s1.spawnWorker = s.spawnWorker := by
    intro inflight n s1 hd
    obtain ⟨m, s2, s3, hpost, hsend, hrecv, -⟩ := drive_some hd
    rw [(poll_frame hrecv).spawnWorker, (poll_frame hsend).spawnWorker, spawnWorker_postTask hpost, takeTask_eq]
  rcases h with ⟨hw, h⟩ | h
  · obtain ⟨hw', -⟩ | ⟨-, -, n, s1, hd, rfl⟩ := runStep_some hidle h
    · exact absurd (hw.symm.trans hw') (by decide)
    · have hw1 := (hspawn hd).trans hw
      have hcount : s.takeTask.counted = 0 := by
        rw [takeTask_eq]
        simp [counted, hw]
      have hrun := drives hok (hcount ▸ hd)
      rw [recount_of_step hw1] at hrun
      unfold letGo at hrun
      rw [if_neg (by simp [hw1])] at hrun
      exact hrun
  · obtain ⟨hw, n, s1, hd, rfl⟩ := worker_some h
    have hw1 := (hspawn hd).trans hw
    have hcount : s.takeTask.counted = s.inflightRequests := by
      rw [takeTask_eq]
      simp [counted, hw]
    have hrun := drives hok (hcount ▸ hd)
    rw [recount_of_worker hw1] at hrun
    unfold letGo at hrun
    rw [if_pos hw1] at hrun
    exact hrun

/-! ## Runs -/

/-- Tasks are freed when nothing of them is in use, and ids are given out again when their last task is no longer in
use. -/
def freesUnused (x : Driven) : Action → Prop
  | .send .. => x.protocol.IdFree
  | .receive .. => x.protocol.IdFree
  | .freeTask id => x.protocol.Unused (x.protocol.taskOf id)
  | _ => True

theorem owned_step {a : Action} (h : x.protocol.Owned) (hfree : x.freesUnused a) (hs : x.step a = some x') :
    x'.protocol.Owned := by
  cases a with
  | send peerName bufferList created =>
    cases hs
    exact h.enqueue hfree (enqueued _ _ _ _ _)
  | receive peerName bufferList created =>
    cases hs
    exact h.enqueue hfree (enqueued _ _ _ _ _)
  | freeTask id =>
    cases hs
    exact h.freeTask hfree
  | take =>
    simp only [step] at hs
    split at hs
    · cases hs
      exact h.takeTask
    · cases hs
  | post badWr =>
    simp only [step] at hs
    split at hs
    · obtain ⟨⟨n, s⟩, hp, rfl⟩ := Option.map_eq_some_iff.1 hs
      exact (h.postTask hp).recount n
    · cases hs
  | complete wc =>
    simp only [step] at hs
    split at hs
    · obtain ⟨s, hc, rfl⟩ := Option.map_eq_some_iff.1 hs
      exact (h.completed (complete_some hc)).recount _
    · cases hs
  | next =>
    simp only [step] at hs
    split at hs
    · cases hs
      exact h
    · cases hs
      exact h.letGo
    · cases hs

/-- In every run whose tasks are freed, and whose ids are given out again, when nothing of the task is in use, every
completion that can be reported names a request that exists, and is processed. In the state reached, a `freeTask` of a
task that no driver holds keeps it so exactly when no request of the task is outstanding; one of a task that a driver
holds keeps it so until the driver posts, exactly when it then posts nothing; and a `send` or `receive` keeps it so
exactly when no request is outstanding of the task that had the id before. -/
theorem completions_live (spawnWorker : Bool) (maxWrPerQp : Nat) (regions : List MemoryRegion) (connected : List String)
    (as : List Action) (x : Driven)
    (hrun : Runs.Run step freesUnused ⟨start spawnWorker maxWrPerQp regions connected, .idle⟩ as x) :
    x.protocol.Live ∧
    (∀ wc : Completion, wc.request ∈ x.protocol.outstanding →
      (x.protocol.complete wc.request.type wc).isSome = true) ∧
    (∀ id, (x.protocol.freeTask id).Live ↔ ∀ w ∈ x.protocol.outstanding, w.taskId ≠ x.protocol.taskOf id) ∧
    (∀ id t inflight badWr n s', x.protocol.task = some (id, t) →
      (x.protocol.freeTask id).postTask inflight badWr = some (n, s') →
      (s'.Live ↔ s'.outstanding = x.protocol.outstanding)) ∧
    ∀ type peerName bufferList created, (x.protocol.enqueue type peerName bufferList created).2.Live ↔
      ∀ id ∈ x.protocol.predecessor, ∀ w ∈ x.protocol.outstanding, w.taskId ≠ id := by
  have h : x.protocol.Owned := hrun.invariant (P := fun x => x.protocol.Owned) (.start _ _ _ _)
    fun _ _ _ hx hfree hs => owned_step hx hfree hs
  refine ⟨h.live, fun wc hmem => ?_, live_freeTask_iff h.live,
    fun id t inflight badWr n s' ht hp => live_postTask_freed_iff h ht hp,
    fun _ _ _ _ => live_enqueued_iff h.live (fun w hw => (h.posted w hw).2) (enqueued _ _ _ _ _)⟩
  rw [complete_isSome_iff hmem, Option.isSome_iff_ne_none]
  intro hgone
  exact h.live _ hmem (statusAt_of_none hgone)

/-- A task is posted by one call of `runStep` and freed; the completion comes in the next call. -/
theorem completion_of_freed_task : ∃ x,
    Runs.Run step (fun _ _ => True) ⟨start false 4 [smallRegion] ["a"], .idle⟩
      [.send "a" [⟨100, 2⟩] true, .take, .post none, .next, .next, .freeTask 0, .take, .post none] x ∧
    x.phase = .polling .send ∧ ⟨.send, "a", 0, 0⟩ ∈ x.protocol.outstanding ∧ x.protocol.taskMap 0 = none ∧
    x.protocol.complete .send ⟨⟨.send, "a", 0, 0⟩, true⟩ = none := by
  obtain ⟨x, hrun, ht⟩ := Runs.exists_run_of_exec step (fun _ _ => True) ⟨start false 4 [smallRegion] ["a"], .idle⟩
    [.send "a" [⟨100, 2⟩] true, .take, .post none, .next, .next, .freeTask 0, .take, .post none]
    (fun x : Driven => decide (x.phase = .polling .send ∧ ⟨.send, "a", 0, 0⟩ ∈ x.protocol.outstanding ∧
      x.protocol.taskMap 0 = none)) (by decide +kernel)
  obtain ⟨hphase, hmem, hgone⟩ := of_decide_eq_true ht
  refine ⟨x, hrun, hphase, hmem, hgone, ?_⟩
  unfold complete
  rw [if_pos ⟨hmem, rfl⟩, hgone]

instance (x : Driven) (a : Action) : Decidable (x.freesUnused a) := by
  cases a <;> unfold freesUnused <;> infer_instance

/-- The same task freed after its completion, with another one on its way. -/
theorem completions_of_kept_tasks : ∃ x,
    Runs.Run step freesUnused ⟨start false 4 [smallRegion] ["a"], .idle⟩
      [.send "a" [⟨100, 2⟩] true, .take, .post none, .complete ⟨⟨.send, "a", 0, 0⟩, true⟩, .next, .next, .freeTask 0,
        .send "a" [⟨102, 2⟩] true, .take, .post none] x ∧
    x.protocol.outstanding = [⟨.send, "a", 1, 0⟩] ∧ x.protocol.Live := by
  obtain ⟨x, hrun, ht⟩ := Runs.exists_run_of_exec step freesUnused ⟨start false 4 [smallRegion] ["a"], .idle⟩
    [.send "a" [⟨100, 2⟩] true, .take, .post none, .complete ⟨⟨.send, "a", 0, 0⟩, true⟩, .next, .next, .freeTask 0,
      .send "a" [⟨102, 2⟩] true, .take, .post none]
    (fun x : Driven => decide (x.protocol.outstanding = [⟨.send, "a", 1, 0⟩])) (by decide +kernel)
  exact ⟨x, hrun, of_decide_eq_true ht, (completions_live false 4 [smallRegion] ["a"] _ x hrun).1⟩

end Driven

end RapidTransfer.Reliable
