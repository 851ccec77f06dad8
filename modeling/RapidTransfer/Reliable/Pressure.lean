/-
Back-pressure in the reliable protocol. An endpoint posts the part of a task that its depth has room for, and a driver
marks the rest `FAILED`. The worker counts what it has posted over all endpoints and waits until a task fits; `runStep`
begins to count at zero in every call, so a task that finds a queue pair partly full fails (`full_queue_fails`).
`failure_reported_iff` says exactly when.
-/
import RapidTransfer.Reliable.Tasks

namespace RapidTransfer.Reliable.Protocol

/-! ## Depths -/

/-- The number of requests on a queue of a queue pair. -/
def onQueue (s : Protocol) (endpoint : String) (type : RequestType) : Nat :=
  s.outstanding.countP fun w => w.endpoint = endpoint ∧ w.type = type

/-- Every depth is the number of requests that are outstanding there. -/
structure Accounted (s : Protocol) : Prop where
  depth : ∀ endpoint type d, s.depth endpoint type = some d → d = s.onQueue endpoint type
  known : ∀ w ∈ s.outstanding, s.depth w.endpoint w.type ≠ none

namespace Accounted

variable {s s' : Protocol}

theorem start (spawnWorker : Bool) (maxWrPerQp : Nat) (regions : List MemoryRegion) (connected : List String) :
    Accounted (start spawnWorker maxWrPerQp regions connected) := by
  constructor
  · intro endpoint type d hd
    obtain ⟨ep, hep, rfl⟩ := Option.map_eq_some_iff.1 hd
    unfold Protocol.start at hep
    simp only at hep
    split at hep
    · cases hep; rfl
    · cases hep
  · rintro w ⟨⟩

theorem enqueue (h : Accounted s) {bufferList : List Buffer} (he : Enqueued s bufferList s') : Accounted s' := by
  have hq : ∀ endpoint type, s'.onQueue endpoint type = s.onQueue endpoint type := by
    intro endpoint type
    unfold onQueue
    rw [he.outstanding]
  constructor
  · intro endpoint type d hd
    rw [hq]
    rcases he.depth endpoint type with hsame | ⟨hnone, hzero⟩
    · exact h.depth endpoint type d (hsame ▸ hd)
    · -- a new endpoint has nothing outstanding
      rw [hzero] at hd
      cases hd
      have : s.onQueue endpoint type = 0 := by
        rw [onQueue, List.countP_eq_zero]
        rintro w hw hx
        obtain ⟨rfl, rfl⟩ := of_decide_eq_true hx
        exact h.known w hw hnone
      omega
  · intro w hw
    rw [he.outstanding] at hw
    rcases he.depth w.endpoint w.type with hsame | ⟨hnone, -⟩
    · rw [hsame]; exact h.known w hw
    · exact absurd hnone (h.known w hw)

theorem takeTask (h : Accounted s) : Accounted s.takeTask := by
  rw [takeTask_eq]
  exact ⟨h.depth, h.known⟩

theorem submitted (h : Accounted s) {id n : Nat} {t : Task} {d : Int} (hd : s.depth t.endpoint t.type = some d)
    (hsub : Submitted s id t n s') : Accounted { s' with task := none } := by
  constructor
  · intro endpoint type d hd
    have hd : s'.depth endpoint type = some d := hd
    have hq : s'.onQueue endpoint type =
        s.onQueue endpoint type + if endpoint = t.endpoint ∧ type = t.type then n else 0 := by
      unfold onQueue
      rw [hsub.outstanding, List.countP_append, List.countP_map]
      congr 1
      split
      · rename_i hx
        obtain ⟨rfl, rfl⟩ := hx
        rw [List.countP_eq_length.2 (by simp), List.length_range]
      · rename_i hx
        rw [List.countP_eq_zero]
        rintro i - hi
        obtain ⟨h1, h2⟩ := of_decide_eq_true hi
        exact hx ⟨h1.symm, h2.symm⟩
    show d = (s'.onQueue endpoint type : Int)
    rw [hq]
    rw [hsub.depth] at hd
    split at hd
    · rename_i hx
      obtain ⟨d0, hd0, rfl⟩ := Option.map_eq_some_iff.1 hd
      rw [if_pos hx, h.depth endpoint type d0 hd0]
      push_cast
      rfl
    · rename_i hx
      rw [if_neg hx, h.depth endpoint type d hd]
      rfl
  · intro w hw
    have hw : w ∈ s'.outstanding := hw
    show s'.depth w.endpoint w.type ≠ none
    have hold : s.depth w.endpoint w.type ≠ none := by
      rw [hsub.outstanding, List.mem_append] at hw
      rcases hw with hw | hw
      · exact h.known w hw
      · obtain ⟨i, -, rfl⟩ := List.mem_map.1 hw
        show s.depth t.endpoint t.type ≠ none
        rw [hd]
        exact Option.some_ne_none d
    rw [hsub.depth]
    split
    · exact fun hx => hold (Option.map_eq_none_iff.1 hx)
    · exact hold

theorem completed (h : Accounted s) {wc : Completion} (hc : Completed s wc s') : Accounted s' := by
  constructor
  · intro endpoint type d hd
    have hq : s'.onQueue endpoint type = s.onQueue endpoint type -
        if endpoint = wc.request.endpoint ∧ type = wc.request.type then 1 else 0 := by
      unfold onQueue
      rw [hc.outstanding, List.countP_erase]
      by_cases hx : endpoint = wc.request.endpoint ∧ type = wc.request.type
      · rw [if_pos hx, if_pos ⟨hc.mem, decide_eq_true ⟨hx.1.symm, hx.2.symm⟩⟩]
      · rw [if_neg hx, if_neg fun hy => hx ⟨(of_decide_eq_true hy.2).1.symm, (of_decide_eq_true hy.2).2.symm⟩]
    rw [hq]
    rw [hc.depth] at hd
    split at hd
    · rename_i hx
      obtain ⟨d0, hd0, rfl⟩ := Option.map_eq_some_iff.1 hd
      have hpos : 0 < s.onQueue endpoint type :=
        List.countP_pos_iff.2 ⟨wc.request, hc.mem, decide_eq_true ⟨hx.1.symm, hx.2.symm⟩⟩
      rw [if_pos hx, h.depth endpoint type d0 hd0]
      omega
    · rename_i hx
      rw [if_neg hx, h.depth endpoint type d hd]
      rfl
  · intro w hw
    rw [hc.outstanding] at hw
    have hold := h.known w (List.mem_of_mem_erase hw)
    rw [hc.depth]
    split
    · exact fun hx => hold (Option.map_eq_none_iff.1 hx)
    · exact hold

/-- No queue has more than all of them together. -/
theorem depth_le (h : Accounted s) {endpoint : String} {type : RequestType} {d : Int}
    (hd : s.depth endpoint type = some d) : d ≤ s.outstanding.length := by
  rw [h.depth endpoint type d hd]
  exact Int.ofNat_le.2 List.countP_le_length

end Accounted

/-- No task has more requests than a queue pair holds. -/
def Small (s : Protocol) : Prop := ∀ id n, s.size id = some n → n ≤ s.maxWrPerQp

namespace Small

variable {s s' : Protocol}

theorem enqueue (h : Small s) {bufferList : List Buffer} (hlen : bufferList.length ≤ s.maxWrPerQp)
    (he : Enqueued s bufferList s') : Small s' := by
  intro id n hn
  rw [he.maxWrPerQp]
  obtain ⟨t, ht, rfl⟩ := exists_of_size hn
  by_cases hnew : id = s.nextTaskId
  · subst hnew
    rcases he.tasks with ⟨-, hmap⟩ | ⟨t', -, hmap, hlen', -⟩ <;> rw [hmap, Function.update_self] at ht <;> cases ht
    rw [hlen']
    exact hlen
  · exact h id _ (congrArg (Option.map _) (he.others_of_some hnew ht).1)

theorem takeTask (h : Small s) : Small s.takeTask := by
  rw [takeTask_eq]
  exact h

theorem frame (h : Small s) (hf : Frame s s') : Small s' := by
  intro id n hn
  rw [hf.maxWrPerQp]
  exact h id n (hf.size id ▸ hn)

end Small

/-! ## A call of a driver -/

section drive

variable {s s' : Protocol} {inflight n : Nat} {badWr : Option Nat} {sendWc recvWc : List Completion}

theorem drive_kept (hmap : Mapped s) (hacc : Accounted s) (hsmall : Small s)
    (hd : s.drive inflight badWr sendWc recvWc = some (n, s')) : Accounted s' ∧ Small s' := by
  refine (hmap.drive_rule (P := fun s => Accounted s ∧ Small s) ?_ ?_ ?_ ⟨hacc, hsmall⟩ hd).2
  · rintro x - ⟨ha, hs⟩
    exact ⟨ha.takeTask, hs.takeTask⟩
  · rintro x id t d k x' ⟨ha, hs⟩ - hdepth hsub
    have hs' : Small x' := hs.frame hsub.toFrame
    exact ⟨ha.submitted hdepth hsub, hs'⟩
  · rintro x wc x' ⟨ha, hs⟩ hc
    exact ⟨ha.completed hc, hs.frame hc.toFrame⟩

theorem length_poll {cq : RequestType} {wcs : List Completion} (h : s.poll cq wcs = some s') :
    s'.outstanding.length + wcs.length = s.outstanding.length := by
  unfold poll at h
  split at h
  · clear * - h
    induction wcs generalizing s with
    | nil => cases h; rfl
    | cons wc wcs ih =>
      obtain ⟨s1, h1, h⟩ := Option.bind_eq_some_iff.1 h
      have hc := complete_some h1
      have hpos := List.length_pos_of_mem hc.mem
      have hlen := ih h
      rw [hc.outstanding, List.length_erase_of_mem hc.mem] at hlen
      rw [List.length_cons]
      omega
  · cases h

/-- When no post is refused, the count of a driver follows what is outstanding. -/
theorem length_drive (hmap : Mapped s) (h0 : s.outstanding.length = inflight)
    (hd : s.drive inflight none sendWc recvWc = some (n, s')) : s'.outstanding.length = n := by
  obtain ⟨m, s1, s2, hp, hsend, hrecv, rfl⟩ := drive_some hd
  have hm : s1.outstanding.length = m := by
    have hout := congrArg List.length s.takeTask_outstanding
    obtain ⟨-, rfl, rfl⟩ | ⟨id, t, htask, ⟨-, rfl, rfl⟩ | ⟨ret, x, -, hsub, rfl, rfl⟩⟩ := postTask_some hp
    · exact hout.trans h0
    · exact hout.trans h0
    · obtain ⟨d, k, -, -, -, -, hk, hsub⟩ := submit_some (hmap.takeTask.held id t htask).2 hsub
      show x.outstanding.length = inflight + ret.toNat
      rw [hsub.outstanding, List.length_append, List.length_map, List.length_range, hout, h0, hk rfl]
  have h1 := length_poll hsend
  have h2 := length_poll hrecv
  omega

end drive

/-! ## Failures -/

def NoneFailed (s : Protocol) : Prop := ∀ id i, s.statusAt id i ≠ some .failed

/-- Successful completions add no failure. -/
theorem NoneFailed.completed {s s' : Protocol} {wc : Completion} (h : NoneFailed s) (hwc : wc.success = true)
    (hc : Completed s wc s') : NoneFailed s' := by
  intro id i
  rw [hc.status]
  split
  · intro hx
    obtain ⟨st, -, hx⟩ := Option.map_eq_some_iff.1 hx
    cases hx
  · exact h id i

/-- A request that has failed and is off the queue pairs. -/
structure FailedAt (s : Protocol) (id i : Nat) : Prop where
  status : s.statusAt id i = some .failed
  off : ∀ w ∈ s.outstanding, ¬ (w.taskId = id ∧ w.index = i)

theorem FailedAt.completed {s s' : Protocol} {id i : Nat} {wc : Completion} (h : FailedAt s id i)
    (hc : Completed s wc s') : FailedAt s' id i := by
  constructor
  · rw [hc.status, if_neg fun hx => h.off _ hc.mem ⟨hx.1.symm, hx.2.symm⟩]
    exact h.status
  · intro w hw
    rw [hc.outstanding] at hw
    exact h.off w (List.mem_of_mem_erase hw)

section submit

variable {s s' : Protocol} {id : Nat} {t : Task} {ret d : Int}

/-- A task for which its queue has room is posted as a whole. -/
theorem NoneFailed.submit (h : NoneFailed s) (ht : ∀ n ∈ s.size id, n = t.requestList.length)
    (hd : s.depth t.endpoint t.type = some d) (hroom : d + t.requestList.length ≤ s.maxWrPerQp)
    (hsub : s.submit id t none = some (ret, s')) : NoneFailed { s' with task := none } := by
  obtain ⟨d', n, hd', -, hret, -, hn, hsub⟩ := submit_some ht hsub
  obtain rfl : d' = d := Option.some.inj (hd'.symm.trans hd)
  have hall : n = t.requestList.length := by
    rw [hn rfl, hret]
    omega
  intro id' i
  show s'.statusAt id' i ≠ some .failed
  rw [hsub.status]
  split
  · rename_i hx
    rw [hx.1, statusAt_eq_none fun k hk => (ht k hk).trans_le (hall ▸ hx.2)]
    exact Option.some_ne_none _ ∘ Eq.symm
  · exact h id' i

/-- Otherwise the request that did not fit has failed. -/
theorem failedAt_submit (hwf : WF s) (htask : s.task = some (id, t)) (hd : s.depth t.endpoint t.type = some d)
    (hfull : s.maxWrPerQp < d + t.requestList.length) (hsub : s.submit id t none = some (ret, s')) :
    FailedAt { s' with task := none } id ret.toNat := by
  obtain ⟨ht, -⟩ := hwf.held id t htask
  obtain ⟨d', n, hd', hpos, hret, -, hn, hsub⟩ := submit_some (size_of_some ht) hsub
  obtain rfl : d' = d := Option.some.inj (hd'.symm.trans hd)
  have hlt : ret.toNat < t.requestList.length := by omega
  constructor
  · show s'.statusAt id ret.toNat = _
    rw [hsub.status, if_pos ⟨rfl, (hn rfl).le⟩]
    simp [statusAt, ht, hlt]
  · intro w hw
    have hw : w ∈ s'.outstanding := hw
    rw [hsub.outstanding, List.mem_append] at hw
    rintro ⟨hid, hi⟩
    rcases hw with hw | hw
    · exact (hwf.posted w hw).1 (hid ▸ .inr ⟨t, htask⟩)
    · obtain ⟨i, hrange, rfl⟩ := List.mem_map.1 hw
      have hlt := List.mem_range.1 hrange
      rw [hn rfl] at hlt
      exact absurd hi hlt.ne

end submit

/-- A call that posts what its queue has room for, and whose completions succeed, adds no failure. -/
theorem NoneFailed.drive {s s' : Protocol} {inflight n : Nat} {sendWc recvWc : List Completion} (h : NoneFailed s)
    (hmap : Mapped s) (hwc : ∀ wc ∈ sendWc ++ recvWc, wc.success = true)
    (hroom : ∀ id t d, s.takeTask.task = some (id, t) → inflight + t.requestList.length ≤ s.maxWrPerQp →
      s.depth t.endpoint t.type = some d → d + t.requestList.length ≤ s.maxWrPerQp)
    (hd : s.drive inflight none sendWc recvWc = some (n, s')) : NoneFailed s' := by
  obtain ⟨m, s1, s2, hp, hsend, hrecv, -⟩ := drive_some hd
  have htake : NoneFailed s.takeTask := fun id i => s.takeTask_statusAt id i ▸ h id i
  have h1 : NoneFailed s1 := by
    obtain ⟨-, -, rfl⟩ | ⟨id, t, htask, ⟨-, -, rfl⟩ | ⟨ret, x, hfit, hsub, -, rfl⟩⟩ := postTask_some hp
    · exact htake
    · exact htake
    · have ht := (hmap.takeTask.held id t htask).2
      obtain ⟨d, -, hd, -⟩ := submit_some ht hsub
      refine htake.submit ht hd ?_ hsub
      rw [takeTask_maxWrPerQp] at hfit ⊢
      exact hroom id t d htask hfit (s.takeTask_depth _ _ ▸ hd)
  have h2 : NoneFailed s2 :=
    poll_rule (fun _ wc _ hx hmem hc => hx.completed (hwc wc (List.mem_append_left _ hmem)) hc) h1 hsend
  exact poll_rule (fun _ wc _ hx hmem hc => hx.completed (hwc wc (List.mem_append_right _ hmem)) hc) h2 hrecv

/-! ## Runs -/

/-- Tasks are small enough for a queue pair and are not freed, and what the verbs are asked for succeeds. -/
def succeeds (s : Protocol) : Event → Bool
  | .send _ bufferList _ => decide (bufferList.length ≤ s.maxWrPerQp)
  | .receive _ bufferList _ => decide (bufferList.length ≤ s.maxWrPerQp)
  | .freeTask _ => false
  | .runStep badWr sendWc recvWc => badWr.isNone && (sendWc ++ recvWc).all (·.success)
  | .worker badWr sendWc recvWc => badWr.isNone && (sendWc ++ recvWc).all (·.success)

/-- `runStep` takes a task when its queue has room for all of it, if it takes one. -/
def roomy (s : Protocol) : Event → Bool
  | .runStep .. => s.spawnWorker || s.front.all fun t =>
      (s.depth t.endpoint t.type).all fun d : Int => decide (d + t.requestList.length ≤ s.maxWrPerQp)
  | _ => true

structure Unfailed (s : Protocol) : Prop where
  mapped : Mapped s
  idle : s.spawnWorker = false → s.task = none
  accounted : Accounted s
  small : Small s
  inflight : s.spawnWorker = true → s.outstanding.length = s.inflightRequests
  noneFailed : NoneFailed s

theorem succeeds_iff {badWr : Option Nat} {sendWc recvWc : List Completion} :
    (badWr.isNone && (sendWc ++ recvWc).all (·.success)) = true ↔
      badWr = none ∧ ∀ wc ∈ sendWc ++ recvWc, wc.success = true := by
  rw [Bool.and_eq_true_iff, Option.isNone_iff_eq_none, List.all_eq_true]

theorem front_of_takeTask {s : Protocol} {id : Nat} {t : Task} (h0 : s.task = none)
    (h : s.takeTask.task = some (id, t)) : s.front = some t := by
  obtain he | ⟨first, rest, -, hp, he⟩ := s.takeTask_cases
  · rw [he, h0] at h; cases h
  · rw [he] at h
    obtain ⟨t', ht', hx⟩ := Option.map_eq_some_iff.1 h
    cases hx
    unfold front
    rw [hp]
    exact ht'

/-- `runStep` reports no failure when the task it takes finds room. -/
theorem noneFailed_runStep {s s' : Protocol} {sendWc recvWc : List Completion} (h : Unfailed s)
    (hwc : ∀ wc ∈ sendWc ++ recvWc, wc.success = true) (hroom : roomy s (.runStep none sendWc recvWc) = true)
    (hs : s.runStep none sendWc recvWc = some s') : NoneFailed s' := by
  obtain ⟨-, rfl⟩ | ⟨hw, hnone, n, s1, hd, rfl⟩ := runStep_some h.idle hs
  · exact h.noneFailed
  · simp only [roomy, hw, Bool.false_or, Option.all_eq_true, decide_eq_true_iff] at hroom
    have hnf : NoneFailed s1 := h.noneFailed.drive h.mapped hwc
      (fun id t d htask _ hdepth => hroom t (front_of_takeTask hnone htask) d hdepth) hd
    exact hnf

/-- Otherwise it reports one, if the task it takes was nowhere else. -/
theorem roomy_of_noneFailed {s s' : Protocol} {sendWc recvWc : List Completion} (h : Unfailed s) (hwf : WF s)
    (hs : s.runStep none sendWc recvWc = some s') (hnf : NoneFailed s') :
    roomy s (.runStep none sendWc recvWc) = true := by
  obtain ⟨hw, -⟩ | ⟨hw, hnone, n, s1, hd, rfl⟩ := runStep_some h.idle hs
  · simp [roomy, hw]
  · simp only [roomy, hw, Bool.false_or, Option.all_eq_true, decide_eq_true_iff]
    intro t hfront d hdepth
    by_contra hfull
    -- the task is taken, and the request that does not fit fails for good
    obtain ⟨id, rest, hp, ht⟩ := front_some hfront
    have htake := takeTask_of_front hnone hp ht
    have hfit : t.requestList.length ≤ s.maxWrPerQp := h.small _ _ (congrArg (Option.map _) ht)
    obtain ⟨m, x, y, hpost, hsend, hrecv, -⟩ := drive_some hd
    have hwf := hwf.takeTask
    rw [htake] at hpost hwf
    obtain ⟨hx, -⟩ | ⟨id', t', htask, ⟨hlt, -⟩ | ⟨ret, z, -, hsub, -, rfl⟩⟩ := postTask_some hpost
    · cases hx
    · cases htask
      rw [Nat.zero_add] at hlt
      exact absurd hfit (not_le.2 hlt)
    · cases htask
      have hfail := failedAt_submit hwf rfl hdepth (not_le.1 hfull) hsub
      have hfail := poll_rule (P := fun s => FailedAt s _ ret.toNat)
        (fun _ _ _ hx _ hc => hx.completed hc) hfail hsend
      have hfail := poll_rule (P := fun s => FailedAt s _ ret.toNat)
        (fun _ _ _ hx _ hc => hx.completed hc) hfail hrecv
      exact hnf _ ret.toNat hfail.status

theorem Unfailed.step {s s' : Protocol} {e : Event} (h : Unfailed s) (hok : succeeds s e = true)
    (hroom : roomy s e = true) (hs : step s e = some s') : Unfailed s' := by
  have henqueue : ∀ {bufferList : List Buffer} {s' : Protocol}, bufferList.length ≤ s.maxWrPerQp →
      Enqueued s bufferList s' → Unfailed s' := by
    intro bufferList s' hlen he
    refine ⟨h.mapped.enqueue he, fun hw => he.task.trans (h.idle (he.spawnWorker ▸ hw)), h.accounted.enqueue he,
      h.small.enqueue hlen he, fun hw => ?_, fun id i => ?_⟩
    · rw [he.outstanding, he.inflightRequests]
      exact h.inflight (he.spawnWorker ▸ hw)
    · by_cases hid : id = s.nextTaskId
      · subst hid
        exact fun hx => absurd (he.statusAt_new hx) (by decide)
      · exact fun hx => h.noneFailed id i (he.statusAt_of_some hid hx)
  cases e with
  | send peerName bufferList created => cases hs; exact henqueue (of_decide_eq_true hok) (enqueued _ _ _ _ _)
  | receive peerName bufferList created => cases hs; exact henqueue (of_decide_eq_true hok) (enqueued _ _ _ _ _)
  | freeTask id => cases hok
  | runStep badWr sendWc recvWc =>
    obtain ⟨rfl, hwc⟩ := succeeds_iff.1 hok
    have hnf := noneFailed_runStep h hwc hroom hs
    obtain ⟨-, rfl⟩ | ⟨hw, -, n, s1, hd, rfl⟩ := runStep_some h.idle hs
    · exact h
    · obtain ⟨hacc, hsmall⟩ := drive_kept h.mapped h.accounted h.small hd
      refine ⟨(h.mapped.drive hd).release, fun _ => rfl, ⟨hacc.depth, hacc.known⟩, hsmall, fun hw' => ?_, hnf⟩
      have hw1 : s1.spawnWorker = false := (spawnWorker_drive hd h.mapped).trans hw
      exact absurd (hw1.symm.trans hw') (by decide)
  | worker badWr sendWc recvWc =>
    obtain ⟨rfl, hwc⟩ := succeeds_iff.1 hok
    obtain ⟨hw, n, s1, hd, rfl⟩ := worker_some hs
    have hlen := h.inflight hw
    obtain ⟨hacc, hsmall⟩ := drive_kept h.mapped h.accounted h.small hd
    have hcount : s1.outstanding.length = n := length_drive h.mapped hlen hd
    have hnf : NoneFailed s1 := by
      refine h.noneFailed.drive h.mapped hwc (fun id t d _ hfit hdepth => ?_) hd
      -- no depth exceeds what the worker has counted
      have hle := h.accounted.depth_le hdepth
      omega
    refine ⟨(h.mapped.drive hd).recount n, fun hw' => ?_, ⟨hacc.depth, hacc.known⟩, hsmall, fun _ => hcount, hnf⟩
    have hw1 : s1.spawnWorker = true := (spawnWorker_drive hd h.mapped).trans hw
    exact absurd (hw1.symm.trans hw') (by decide)

theorem keepsTasks_of_succeeds {s : Protocol} {e : Event} (h : succeeds s e = true) : keepsTasks e = true := by
  cases e with
  | freeTask id => cases h
  | _ => rfl

/-- In every run of small tasks over either driver whose posts and completions succeed, and whose `runStep` calls take
a task when its queue has room for it, no request fails; a round of the worker always meets the condition. In the state
reached, the next event adds no failure exactly when it meets the condition itself, if no call was given the id of a
task that was still in use. -/
theorem failure_reported_iff (spawnWorker : Bool) (maxWrPerQp : Nat) (regions : List MemoryRegion)
    (connected : List String) (es : List Event) (s : Protocol)
    (hrun : Runs.Run step (fun s e => succeeds s e = true ∧ roomy s e = true)
      (start spawnWorker maxWrPerQp regions connected) es s) :
    NoneFailed s ∧
    (Runs.Run step (fun s e => (succeeds s e = true ∧ roomy s e = true) ∧ idsFree s e = true)
        (start spawnWorker maxWrPerQp regions connected) es s →
      ∀ e s', succeeds s e = true → step s e = some s' → (NoneFailed s' ↔ roomy s e = true)) := by
  have hstart : Unfailed (start spawnWorker maxWrPerQp regions connected) := by
    refine ⟨.start _ _ _ _, fun _ => rfl, .start _ _ _ _, ?_, fun _ => rfl, ?_⟩
    · rintro id n ⟨⟩
    · rintro id i ⟨⟩
  have h : Unfailed s := hrun.invariant (P := Unfailed) hstart fun _ _ _ hx hok hs => hx.step hok.1 hok.2 hs
  refine ⟨h.noneFailed, fun hrun' e s' hok hs => ?_⟩
  have hwf : WF s := by
    refine (hrun'.invariant (P := fun x => Unfailed x ∧ WF x) ⟨hstart, .start _ _ _ _⟩ ?_).2
    rintro x f x' ⟨hx, hw⟩ ⟨hok, hfree⟩ hs
    exact ⟨hx.step hok.1 hok.2 hs, hw.step hx.idle (keepsTasks_of_succeeds hok.1) hfree hs⟩
  cases e with
  | runStep badWr sendWc recvWc =>
    obtain ⟨rfl, hwc⟩ := succeeds_iff.1 hok
    exact ⟨roomy_of_noneFailed h hwf hs, fun hroom => noneFailed_runStep h hwc hroom hs⟩
  | send => exact iff_of_true (h.step hok rfl hs).noneFailed rfl
  | receive => exact iff_of_true (h.step hok rfl hs).noneFailed rfl
  | freeTask => cases hok
  | worker => exact iff_of_true (h.step hok rfl hs).noneFailed rfl

/-- Queue pairs of two: a second task finds the queue full and fails, with nothing refused or lost. -/
theorem full_queue_fails : ∃ s,
    Runs.Run step (fun s e => succeeds s e = true) (start false 2 [smallRegion] ["a"])
      [.send "a" [⟨100, 2⟩, ⟨102, 2⟩] true, .runStep none [] [], .send "a" [⟨104, 2⟩] true, .runStep none [] []] s ∧
    s.statusAt 0 0 = some .pending ∧ s.statusAt 0 1 = some .pending ∧ s.statusAt 1 0 = some .failed := by
  obtain ⟨s, hrun, ht⟩ := Runs.exists_run_of_exec step (fun s e => succeeds s e = true)
    (start false 2 [smallRegion] ["a"])
    [.send "a" [⟨100, 2⟩, ⟨102, 2⟩] true, .runStep none [] [], .send "a" [⟨104, 2⟩] true, .runStep none [] []]
    (fun s : Protocol => decide (s.statusAt 0 0 = some .pending ∧ s.statusAt 0 1 = some .pending ∧
      s.statusAt 1 0 = some .failed)) (by decide +kernel)
  exact ⟨s, hrun, of_decide_eq_true ht⟩

/-- The worker waits for a completion and posts the second task then. -/
theorem worker_waits : ∃ s,
    Runs.Run step (fun s e => (succeeds s e = true ∧ roomy s e = true) ∧ idsFree s e = true)
      (start true 2 [smallRegion] ["a"])
      [.send "a" [⟨100, 2⟩, ⟨102, 2⟩] true, .worker none [] [], .send "a" [⟨104, 2⟩] true,
        .worker none [⟨⟨.send, "a", 0, 0⟩, true⟩] [], .worker none [] []] s ∧
    s.outstanding = [⟨.send, "a", 0, 1⟩, ⟨.send, "a", 1, 0⟩] ∧ NoneFailed s ∧
    ∀ e s', succeeds s e = true → step s e = some s' → (NoneFailed s' ↔ roomy s e = true) := by
  obtain ⟨s, hrun, ht⟩ := Runs.exists_run_of_exec step
    (fun s e => (succeeds s e = true ∧ roomy s e = true) ∧ idsFree s e = true) (start true 2 [smallRegion] ["a"])
    [.send "a" [⟨100, 2⟩, ⟨102, 2⟩] true, .worker none [] [], .send "a" [⟨104, 2⟩] true,
      .worker none [⟨⟨.send, "a", 0, 0⟩, true⟩] [], .worker none [] []]
    (fun s : Protocol => decide (s.outstanding = [⟨.send, "a", 0, 1⟩, ⟨.send, "a", 1, 0⟩])) (by decide +kernel)
  obtain ⟨hnf, hexact⟩ := failure_reported_iff true 2 [smallRegion] ["a"] _ s (hrun.weaken fun _ _ h => h.1)
  exact ⟨s, hrun, of_decide_eq_true ht, hnf, hexact hrun⟩

end RapidTransfer.Reliable.Protocol
