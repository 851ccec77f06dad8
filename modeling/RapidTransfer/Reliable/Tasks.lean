/-
No task of the reliable protocol is lost, except by `runStep`: it takes a task from the queue before it asks whether the
task fits, and a task with more requests than a queue pair holds is then dropped, with all its requests pending. The
worker keeps such a task in hand. `no_task_lost` says that no request is lost when the tasks that `runStep` takes are
small enough, and only then as long as no call is given the id of a task that is still in use.
-/
import RapidTransfer.Reliable.Protocol

namespace RapidTransfer.Reliable.Protocol

/-! ## Tasks that wait -/

/-- The task is in the queue, or in the hands of the driver. -/
def Waits (s : Protocol) (id : Nat) : Prop := id ∈ s.pendingTask ∨ ∃ t, s.task = some (id, t)

theorem Frame.waits_iff {s s' : Protocol} (h : Frame s s') (id : Nat) : s'.Waits id ↔ s.Waits id := by
  unfold Waits
  rw [h.pendingTask, h.task]

/-- A task that waits waited before, or is the new one. -/
theorem Enqueued.waits {s s' : Protocol} {bufferList : List Buffer} (h : Enqueued s bufferList s') {id : Nat}
    (hid : s'.Waits id) (hne : id ≠ s.nextTaskId) : s.Waits id := by
  rcases hid with hid | hid
  · exact .inl ((h.mem_pendingTask hid).resolve_right fun hx => hne hx.1)
  · exact .inr (h.task ▸ hid)

/-! ## Ids -/

/-- The tasks of the map are those that their ids stand for, and the task in the hands of the driver, if it is still in
the map, has all its requests there. -/
structure Mapped (s : Protocol) : Prop where
  issued : ∀ id n, s.size id = some n → id < s.nextTaskId ∧ s.nextTaskId ≤ id + 2 ^ 32
  held : ∀ id t, s.task = some (id, t) → id < s.nextTaskId ∧ ∀ n ∈ s.size id, n = t.requestList.length

namespace Mapped

variable {s s' : Protocol}

theorem start (spawnWorker : Bool) (maxWrPerQp : Nat) (regions : List MemoryRegion) (connected : List String) :
    Mapped (start spawnWorker maxWrPerQp regions connected) := by
  constructor
  · rintro id n ⟨⟩
  · rintro id t ⟨⟩

theorem taskOf_eq (h : Mapped s) {id n : Nat} (hn : s.size id = some n) : s.taskOf id = id :=
  Protocol.taskOf_eq (h.issued id n hn).1 (h.issued id n hn).2

theorem enqueue (h : Mapped s) {bufferList : List Buffer} (he : Enqueued s bufferList s') : Mapped s' := by
  have hold : ∀ {id n}, id ≠ s.nextTaskId → s'.size id = some n → s.size id = some n ∧ id + 2 ^ 32 ≠ s.nextTaskId := by
    intro id n hid hn
    obtain ⟨t, ht, rfl⟩ := exists_of_size hn
    obtain ⟨ht, hne⟩ := he.others_of_some hid ht
    exact ⟨congrArg (Option.map _) ht, hne⟩
  constructor
  · intro id n hn
    rw [he.nextTaskId]
    by_cases hid : id = s.nextTaskId
    · omega
    · obtain ⟨hn, hne⟩ := hold hid hn
      have := h.issued id n hn
      omega
  · intro id t ht
    rw [he.task] at ht
    obtain ⟨hlt, hsize⟩ := h.held id t ht
    exact ⟨he.nextTaskId ▸ Nat.lt_succ_of_lt hlt, fun n hn => hsize n (hold hlt.ne hn).1⟩

theorem takeTask (h : Mapped s) : Mapped s.takeTask := by
  obtain he | ⟨first, rest, -, -, he⟩ := s.takeTask_cases
  · rw [he]
    exact h
  · rw [he]
    refine ⟨h.issued, fun id t ht => ?_⟩
    obtain ⟨t', ht', hx⟩ := Option.map_eq_some_iff.1 ht
    cases hx
    exact ⟨(h.issued _ _ (congrArg (Option.map _) ht')).1, size_of_some ht'⟩

theorem release (h : Mapped s) : Mapped { s with task := none } := ⟨h.issued, by rintro id t ⟨⟩⟩

/-- The worker's count is not part of it. -/
theorem recount (h : Mapped s) (n : Nat) : Mapped { s with inflightRequests := n } := ⟨h.issued, h.held⟩

theorem frame (h : Mapped s) (hf : Frame s s') : Mapped s' := by
  constructor
  · intro id n hn
    rw [hf.nextTaskId]
    exact h.issued id n (hf.size id ▸ hn)
  · intro id t ht
    rw [hf.nextTaskId, hf.size]
    exact h.held id t (hf.task ▸ ht)

/-- A task that is in the map waits no less when one is taken. -/
theorem waits_takeTask (h : Mapped s) {id n : Nat} (hn : s.size id = some n) (hid : s.Waits id) :
    s.takeTask.Waits id := by
  obtain he | ⟨first, rest, htask, hpending, he⟩ := s.takeTask_cases
  · rw [he]
    exact hid
  · rw [he]
    rcases hid with hid | ⟨t, ht⟩
    · rw [hpending, List.mem_cons] at hid
      rcases hid with rfl | hid
      · obtain ⟨t, ht, -⟩ := exists_of_size hn
        exact .inr ⟨t, by rw [h.taskOf_eq hn, ht]; rfl⟩
      · exact .inl hid
    · rw [htask] at ht
      cases ht

end Mapped

theorem waits_of_takeTask {s : Protocol} {id : Nat} (hids : ∀ id ∈ s.pendingTask, s.taskOf id = id)
    (hid : s.takeTask.Waits id) : s.Waits id := by
  obtain he | ⟨first, rest, htask, hpending, he⟩ := s.takeTask_cases
  · exact he ▸ hid
  · have hfirst := hids first (hpending ▸ List.mem_cons_self)
    rw [he] at hid
    rcases hid with hid | ⟨t, ht⟩
    · exact .inl (hpending ▸ List.mem_cons_of_mem _ hid)
    · obtain ⟨t', -, hx⟩ := Option.map_eq_some_iff.1 ht
      cases hx
      rw [hfirst]
      exact .inl (hpending ▸ List.mem_cons_self)

/-- No request of the task is outstanding, and no driver is about to post it. -/
def Unused (s : Protocol) (id : Nat) : Prop := (∀ w ∈ s.outstanding, w.taskId ≠ id) ∧ ∀ t, s.task ≠ some (id, t)

instance (s : Protocol) (id : Nat) : Decidable (s.Unused id) :=
  decidable_of_iff ((∀ w ∈ s.outstanding, w.taskId ≠ id) ∧ ∀ y ∈ s.task, y.1 ≠ id)
    (and_congr_right' ⟨fun h _ ht => h _ ht rfl, fun h y hy he => h y.2 (he ▸ hy)⟩)

/-- The task that had the next id before, if there was one, is no longer in use. -/
def IdFree (s : Protocol) : Prop := ∀ id ∈ s.predecessor, id ∉ s.pendingTask ∧ s.Unused id

instance (s : Protocol) : Decidable s.IdFree :=
  inferInstanceAs (Decidable (∀ id ∈ s.predecessor, id ∉ s.pendingTask ∧ s.Unused id))

theorem IdFree.ne_of_waits {s : Protocol} (h : s.IdFree) {id : Nat} (hid : s.Waits id) :
    id + 2 ^ 32 ≠ s.nextTaskId := by
  intro he
  obtain ⟨hpending, -, htask⟩ := h id (mem_predecessor.2 he)
  rcases hid with hid | ⟨t, ht⟩
  · exact hpending hid
  · exact htask t ht

theorem waits_of_release {s : Protocol} {id : Nat} (hid : Waits { s with task := none } id) : s.Waits id := by
  rcases hid with hid | ⟨t, ⟨⟩⟩
  exact .inl hid

/-- A task is at one place: in the queue, in the hands of the driver, or on a queue pair. Nobody else has the id of a
task that waits, and what the driver holds is the task of the map. -/
structure OnePlace (s : Protocol) : Prop where
  nodup : s.pendingTask.Nodup
  issued : ∀ id, s.Waits id → id < s.nextTaskId ∧ s.nextTaskId ≤ id + 2 ^ 32
  held : ∀ id t, s.task = some (id, t) → s.taskMap id = some t ∧ id ∉ s.pendingTask
  posted : ∀ w ∈ s.outstanding, ¬ s.Waits w.taskId ∧ w.taskId < s.nextTaskId

namespace OnePlace

variable {s s' : Protocol}

theorem start (spawnWorker : Bool) (maxWrPerQp : Nat) (regions : List MemoryRegion) (connected : List String) :
    OnePlace (start spawnWorker maxWrPerQp regions connected) := by
  refine ⟨List.nodup_nil, ?_, ?_, ?_⟩
  · rintro id (hid | ⟨t, ⟨⟩⟩)
    exact absurd hid List.not_mem_nil
  · rintro id t ⟨⟩
  · rintro w ⟨⟩

theorem taskOf_eq (h : OnePlace s) {id : Nat} (hid : s.Waits id) : s.taskOf id = id :=
  Protocol.taskOf_eq (h.issued id hid).1 (h.issued id hid).2

theorem enqueue (h : OnePlace s) (hfree : s.IdFree) {bufferList : List Buffer} (he : Enqueued s bufferList s') :
    OnePlace s' := by
  constructor
  · rcases he.tasks with ⟨hp, -⟩ | ⟨t, hp, -⟩
    · rw [hp]
      exact h.nodup
    · rw [hp, List.nodup_append_comm, List.singleton_append, List.nodup_cons]
      exact ⟨fun hid => (h.issued _ (.inl hid)).1.ne rfl, h.nodup⟩
  · intro id hid
    rw [he.nextTaskId]
    by_cases hnew : id = s.nextTaskId
    · omega
    · have hold := he.waits hid hnew
      have hissued := h.issued id hold
      have hne := hfree.ne_of_waits hold
      omega
  · intro id t ht
    rw [he.task] at ht
    -- the tasks in use were made before the new one, and have other ids
    have hw : s.Waits id := .inr ⟨t, ht⟩
    have hid : id ≠ s.nextTaskId := (h.issued id hw).1.ne
    rw [he.others hid (hfree.ne_of_waits hw)]
    refine ⟨(h.held id t ht).1, fun hp => (h.held id t ht).2 ?_⟩
    exact (he.mem_pendingTask hp).resolve_right fun hx => hid hx.1
  · intro w hw
    rw [he.outstanding] at hw
    obtain ⟨hwait, hlt⟩ := h.posted w hw
    exact ⟨fun hx => hwait (he.waits hx hlt.ne), he.nextTaskId ▸ Nat.lt_succ_of_lt hlt⟩

theorem waits_of_takeTask (h : OnePlace s) {id : Nat} (hid : s.takeTask.Waits id) : s.Waits id :=
  Protocol.waits_of_takeTask (fun _ hx => h.taskOf_eq (.inl hx)) hid

theorem takeTask (h : OnePlace s) : OnePlace s.takeTask := by
  have hwaits : ∀ id, s.takeTask.Waits id → s.Waits id := fun id => h.waits_of_takeTask
  obtain he | ⟨first, rest, htask, hpending, he⟩ := s.takeTask_cases
  · rw [he]
    exact h
  · have hnd := h.nodup
    rw [hpending, List.nodup_cons] at hnd
    have hfirst : s.taskOf first = first := h.taskOf_eq (.inl (hpending ▸ List.mem_cons_self))
    rw [he, hfirst] at hwaits ⊢
    refine ⟨hnd.2, fun id hid => h.issued id (hwaits id hid), ?_, ?_⟩
    · -- a task that was freed while it waited is no longer there to be taken
      intro id t ht
      obtain ⟨t', ht', hx⟩ := Option.map_eq_some_iff.1 ht
      cases hx
      exact ⟨ht', hnd.1⟩
    · intro w hw
      exact ⟨fun hx => (h.posted w hw).1 (hwaits _ hx), (h.posted w hw).2⟩

/-- A task that is posted waits no more. -/
theorem waits_of_submitted (h : OnePlace s) {id n : Nat} {t : Task} (ht : s.task = some (id, t))
    (hsub : Submitted s id t n s') {id' : Nat} (hid : Waits { s' with task := none } id') :
    s.Waits id' ∧ id' ≠ id := by
  rcases hid with hid | ⟨t, ⟨⟩⟩
  · have hid : id' ∈ s.pendingTask := hsub.pendingTask ▸ hid
    exact ⟨.inl hid, fun he => (h.held id t ht).2 (he ▸ hid)⟩

theorem submitted (h : OnePlace s) {id n : Nat} {t : Task} (ht : s.task = some (id, t)) (hsub : Submitted s id t n s') :
    OnePlace { s' with task := none } := by
  have hwaits : ∀ id', Waits { s' with task := none } id' → s.Waits id' ∧ id' ≠ id :=
    fun _ hid => h.waits_of_submitted ht hsub hid
  refine ⟨hsub.pendingTask ▸ h.nodup, fun id' hid => hsub.nextTaskId ▸ h.issued id' (hwaits id' hid).1, ?_, ?_⟩
  · rintro id' t' ⟨⟩
  · intro w hw
    have hw : w ∈ s'.outstanding := hw
    rw [hsub.outstanding, List.mem_append] at hw
    rcases hw with hw | hw
    · obtain ⟨hwait, hlt⟩ := h.posted w hw
      exact ⟨fun hx => hwait (hwaits _ hx).1, hsub.nextTaskId ▸ hlt⟩
    · obtain ⟨i, -, rfl⟩ := List.mem_map.1 hw
      exact ⟨fun hx => (hwaits _ hx).2 rfl, hsub.nextTaskId ▸ (h.issued id (.inr ⟨t, ht⟩)).1⟩

/-- A task that waits is not the one that was completed. -/
theorem ne_completed (h : OnePlace s) {wc : Completion} (hc : Completed s wc s') {id : Nat} (hid : s.Waits id) :
    id ≠ wc.request.taskId :=
  fun he => (h.posted _ hc.mem).1 (he ▸ hid)

theorem completed (h : OnePlace s) {wc : Completion} (hc : Completed s wc s') : OnePlace s' := by
  refine ⟨hc.pendingTask ▸ h.nodup, fun id hid => hc.nextTaskId ▸ h.issued id ((hc.waits_iff id).1 hid), ?_, ?_⟩
  · intro id t ht
    rw [hc.task] at ht
    rw [hc.pendingTask, hc.others id (h.ne_completed hc (.inr ⟨t, ht⟩))]
    exact h.held id t ht
  · intro w hw
    rw [hc.outstanding] at hw
    obtain ⟨hwait, hlt⟩ := h.posted w (List.mem_of_mem_erase hw)
    exact ⟨fun hx => hwait ((hc.waits_iff _).1 hx), hc.nextTaskId ▸ hlt⟩

/-- The task of a driver is let go by its user. -/
theorem release (h : OnePlace s) : OnePlace { s with task := none } := by
  refine ⟨h.nodup, fun id hid => h.issued id (waits_of_release hid), ?_, ?_⟩
  · rintro id t ⟨⟩
  · exact fun w hw => ⟨fun hx => (h.posted w hw).1 (waits_of_release hx), (h.posted w hw).2⟩

end OnePlace

/-- A task waits at one place, and nothing has happened to its requests. -/
structure WF (s : Protocol) : Prop extends OnePlace s where
  queued : ∀ id ∈ s.pendingTask, ∃ t, s.taskMap id = some t
  untouched : ∀ id, s.Waits id → ∀ i st, s.statusAt id i = some st → st = .pending

namespace WF

variable {s s' : Protocol}

theorem start (spawnWorker : Bool) (maxWrPerQp : Nat) (regions : List MemoryRegion) (connected : List String) :
    WF (start spawnWorker maxWrPerQp regions connected) := by
  refine ⟨.start spawnWorker maxWrPerQp regions connected, ?_, ?_⟩
  · rintro id ⟨⟩
  · rintro id (hid | ⟨t, ⟨⟩⟩)
    exact absurd hid List.not_mem_nil

theorem enqueue (h : WF s) (hfree : s.IdFree) {bufferList : List Buffer} (he : Enqueued s bufferList s') : WF s' := by
  refine ⟨h.toOnePlace.enqueue hfree he, ?_, ?_⟩
  · intro id hid
    rcases he.mem_pendingTask hid with hid | ⟨-, t, ht, -⟩
    · rw [he.others (h.issued id (.inl hid)).1.ne (hfree.ne_of_waits (.inl hid))]
      exact h.queued id hid
    · exact ⟨t, ht⟩
  · intro id hid i st hst
    by_cases hnew : id = s.nextTaskId
    · subst hnew
      exact he.statusAt_new hst
    · exact h.untouched id (he.waits hid hnew) i st (he.statusAt_of_some hnew hst)

theorem takeTask (h : WF s) : WF s.takeTask := by
  have hplace := h.toOnePlace.takeTask
  have hwaits : ∀ id, s.takeTask.Waits id → s.Waits id := fun id => h.waits_of_takeTask
  obtain he | ⟨first, rest, htask, hpending, he⟩ := s.takeTask_cases
  · rw [he]
    exact h
  · rw [he] at hplace hwaits ⊢
    refine ⟨hplace, ?_, ?_⟩
    · intro id hid
      exact h.queued id (hpending ▸ List.mem_cons_of_mem _ hid)
    · intro id hid
      exact h.untouched id (hwaits id hid)

theorem submitted (h : WF s) {id n : Nat} {t : Task} (ht : s.task = some (id, t)) (hsub : Submitted s id t n s') :
    WF { s' with task := none } := by
  have hwaits : ∀ id', Waits { s' with task := none } id' → s.Waits id' ∧ id' ≠ id :=
    fun _ hid => h.waits_of_submitted ht hsub hid
  refine ⟨h.toOnePlace.submitted ht hsub, ?_, ?_⟩
  · intro id' hid
    have hne := (hwaits id' (.inl hid)).2
    obtain ⟨t', ht'⟩ := h.queued id' (hsub.pendingTask ▸ hid)
    exact ⟨t', (hsub.others id' hne).trans ht'⟩
  · intro id' hid i st hst
    obtain ⟨hw, hne⟩ := hwaits id' hid
    have hst : s'.statusAt id' i = some st := hst
    rw [hsub.status, if_neg fun hx => hne hx.1] at hst
    exact h.untouched id' hw i st hst

theorem completed (h : WF s) {wc : Completion} (hc : Completed s wc s') : WF s' := by
  have hwaits := fun id => (hc.waits_iff id).1
  refine ⟨h.toOnePlace.completed hc, ?_, ?_⟩
  · intro id hid
    rw [hc.pendingTask] at hid
    obtain ⟨t, ht⟩ := h.queued id hid
    exact ⟨t, (hc.others id (h.ne_completed hc (.inl hid))).trans ht⟩
  · intro id hid i st hst
    have hw := hwaits id hid
    rw [hc.status, if_neg fun hx => h.ne_completed hc hw hx.1] at hst
    exact h.untouched id hw i st hst

end WF

/-! ## Calls of the drivers -/

/-- What the parts of a call keep, the call keeps. -/
theorem drive_rule {P : Protocol → Prop} {s s' : Protocol} {inflight n : Nat} {badWr : Option Nat}
    {sendWc recvWc : List Completion} (htake : ∀ s, P s → P s.takeTask)
    (hpost : ∀ s id t ret s', P s → s.task = some (id, t) → inflight + t.requestList.length ≤ s.maxWrPerQp →
      s.submit id t badWr = some (ret, s') → P { s' with task := none })
    (hdone : ∀ s wc s', P s → wc ∈ sendWc ++ recvWc → Completed s wc s' → P s') (h0 : P s)
    (h : s.drive inflight badWr sendWc recvWc = some (n, s')) : P s' := by
  obtain ⟨m, s1, s2, hp, hsend, hrecv, -⟩ := drive_some h
  have h1 : P s1 := by
    obtain ⟨-, -, rfl⟩ | ⟨id, t, htask, ⟨-, -, rfl⟩ | ⟨ret, x, hfit, hsub, -, rfl⟩⟩ := postTask_some hp
    · exact htake s h0
    · exact htake s h0
    · exact hpost _ id t ret x (htake s h0) htask hfit hsub
  have h2 : P s2 := poll_rule (fun s wc s' hs hwc => hdone s wc s' hs (List.mem_append_left _ hwc)) h1 hsend
  exact poll_rule (fun s wc s' hs hwc => hdone s wc s' hs (List.mem_append_right _ hwc)) h2 hrecv

theorem WF.drive {s s' : Protocol} {inflight n : Nat} {badWr : Option Nat} {sendWc recvWc : List Completion} (h : WF s)
    (hd : s.drive inflight badWr sendWc recvWc = some (n, s')) : WF s' := by
  refine drive_rule (P := WF) (fun _ hs => hs.takeTask) ?_ (fun _ _ _ hs _ hc => hs.completed hc) h hd
  intro s id t ret s' hs ht _ hsub
  obtain ⟨d, k, -, -, -, -, -, hsub⟩ := submit_some (size_of_some (hs.held id t ht).1) hsub
  exact hs.submitted ht hsub

theorem WF.release {s : Protocol} (h : WF s) : WF { s with task := none } :=
  ⟨h.toOnePlace.release, h.queued, fun id hid => h.untouched id (waits_of_release hid)⟩

theorem WF.recount {s : Protocol} (h : WF s) (n : Nat) : WF { s with inflightRequests := n } :=
  ⟨⟨h.nodup, h.issued, h.held, h.posted⟩, h.queued, h.untouched⟩

/-- What the parts of a call keep as long as the map is in order, the call keeps, and the map is. -/
theorem Mapped.drive_rule {P : Protocol → Prop} {s s' : Protocol} {inflight n : Nat} {badWr : Option Nat}
    {sendWc recvWc : List Completion} (htake : ∀ s, Mapped s → P s → P s.takeTask)
    (hpost : ∀ s id t d k s', P s → s.task = some (id, t) → s.depth t.endpoint t.type = some d →
      Submitted s id t k s' → P { s' with task := none })
    (hdone : ∀ s wc s', P s → Completed s wc s' → P s') (hmap : Mapped s) (h0 : P s)
    (hd : s.drive inflight badWr sendWc recvWc = some (n, s')) : Mapped s' ∧ P s' := by
  refine Protocol.drive_rule (P := fun s => Mapped s ∧ P s) ?_ ?_ ?_ ⟨hmap, h0⟩ hd
  · rintro x ⟨hx, hp⟩
    exact ⟨hx.takeTask, htake x hx hp⟩
  · rintro x id t ret x' ⟨hx, hp⟩ ht - hsub
    obtain ⟨d, k, hdepth, -, -, -, -, hsub⟩ := submit_some (hx.held id t ht).2 hsub
    exact ⟨(hx.frame hsub.toFrame).release, hpost x id t d k x' hp ht hdepth hsub⟩
  · rintro x wc x' ⟨hx, hp⟩ - hc
    exact ⟨hx.frame hc.toFrame, hdone x wc x' hp hc⟩

theorem Mapped.drive {s s' : Protocol} {inflight n : Nat} {badWr : Option Nat} {sendWc recvWc : List Completion}
    (h : Mapped s) (hd : s.drive inflight badWr sendWc recvWc = some (n, s')) : Mapped s' :=
  (h.drive_rule (P := fun _ => True) (fun _ _ _ => trivial) (fun _ _ _ _ _ _ _ _ _ _ => trivial)
    (fun _ _ _ _ _ => trivial) trivial hd).1

/-- The task that `runStep` would take. -/
def front (s : Protocol) : Option Task := s.pendingTask.head?.bind fun id => s.taskMap (s.taskOf id)

theorem front_some {s : Protocol} {t : Task} (h : s.front = some t) :
    ∃ id rest, s.pendingTask = id :: rest ∧ s.taskMap (s.taskOf id) = some t := by
  unfold front at h
  cases hp : s.pendingTask with
  | nil => rw [hp] at h; cases h
  | cons id rest =>
    rw [hp] at h
    exact ⟨id, rest, rfl, h⟩

theorem takeTask_of_front {s : Protocol} {id : Nat} {rest : List Nat} {t : Task} (h0 : s.task = none)
    (hp : s.pendingTask = id :: rest) (ht : s.taskMap (s.taskOf id) = some t) :
    s.takeTask = { s with pendingTask := rest, task := some (s.taskOf id, t) } := by
  unfold takeTask
  rw [h0, hp]
  simp only [ht, Option.map_some]

/-- After a call that began with nothing in hand, the task that was taken is still there exactly when it is too
large. -/
theorem task_drive {s s' : Protocol} {n : Nat} {badWr : Option Nat} {sendWc recvWc : List Completion}
    (h0 : s.task = none) (h : s.drive 0 badWr sendWc recvWc = some (n, s')) :
    ((∀ t, s.front = some t → t.requestList.length ≤ s.maxWrPerQp) → s'.task = none) ∧
    ∀ t, s.front = some t → s.maxWrPerQp < t.requestList.length → ∃ id, s'.task = some (id, t) := by
  obtain ⟨m, s1, s2, hp, hsend, hrecv, -⟩ := drive_some h
  rw [(poll_frame hrecv).task, (poll_frame hsend).task]
  have hpost := postTask_some hp
  constructor
  · intro hfit
    obtain ⟨hnone, -, rfl⟩ | ⟨id, t, htask, hrest⟩ := hpost
    · exact hnone
    · obtain he | ⟨first, rest, -, hpending, he⟩ := s.takeTask_cases
      · rw [he, h0] at htask; cases htask
      · rw [he] at htask
        obtain ⟨t', ht', hx⟩ := Option.map_eq_some_iff.1 htask
        cases hx
        have hfit := hfit t (by unfold front; rw [hpending]; exact ht')
        obtain ⟨hlt, -⟩ | ⟨ret, x, -, -, -, rfl⟩ := hrest
        · rw [he, Nat.zero_add] at hlt
          exact absurd hfit (not_le.2 hlt)
        · rfl
  · intro t hfront hlt
    obtain ⟨id, rest, hpending, ht⟩ := front_some hfront
    have he := takeTask_of_front h0 hpending ht
    obtain ⟨hnone, -⟩ | ⟨id', t', htask, hrest⟩ := hpost
    · rw [he] at hnone; cases hnone
    · rw [he] at htask
      cases htask
      obtain ⟨-, -, rfl⟩ | ⟨ret, x, hfit, -⟩ := hrest
      · exact ⟨_, by rw [he]⟩
      · rw [he, Nat.zero_add] at hfit
        exact absurd hfit (not_le.2 hlt)

/-! ## Requests that are pending -/

/-- A pending request belongs to a task that waits, or is on a queue pair. -/
def Settled (s : Protocol) : Prop :=
  ∀ id i, s.statusAt id i = some .pending → s.Waits id ∨ ∃ w ∈ s.outstanding, w.taskId = id ∧ w.index = i

namespace Settled

variable {s s' : Protocol}

theorem enqueue (h : Settled s) {bufferList : List Buffer} (he : Enqueued s bufferList s') : Settled s' := by
  intro id i hst
  rw [he.outstanding]
  by_cases hid : id = s.nextTaskId
  · subst hid
    rcases he.tasks with ⟨-, ht⟩ | ⟨t, hp, -⟩
    · rw [statusAt, ht, Function.update_self] at hst
      cases hst
    · exact .inl (.inl (hp ▸ List.mem_append_right _ (List.mem_singleton_self _)))
  · refine (h id i (he.statusAt_of_some hid hst)).imp_left ?_
    rintro (hw | hw)
    · rcases he.tasks with ⟨hp, -⟩ | ⟨t, hp, -⟩
      · exact .inl (hp ▸ hw)
      · exact .inl (hp ▸ List.mem_append_left _ hw)
    · exact .inr (he.task ▸ hw)

theorem takeTask (h : Settled s) (hmap : Mapped s) : Settled s.takeTask := by
  intro id i hst
  rw [takeTask_statusAt] at hst
  rw [takeTask_outstanding]
  obtain ⟨n, hn⟩ := exists_size_of_statusAt hst
  exact (h id i hst).imp_left (hmap.waits_takeTask hn)

/-- The requests of a task that is posted are on the queue pair or have failed. -/
theorem submitted (h : Settled s) {id n : Nat} {t : Task} (ht : s.task = some (id, t)) (hsub : Submitted s id t n s') :
    Settled { s' with task := none } := by
  intro id' i hst
  have hst : s'.statusAt id' i = some .pending := hst
  show _ ∨ ∃ w ∈ s'.outstanding, _
  rw [hsub.outstanding]
  rw [hsub.status] at hst
  by_cases hid : id' = id
  · subst hid
    by_cases hi : n ≤ i
    · rw [if_pos ⟨rfl, hi⟩] at hst
      obtain ⟨st, -, hx⟩ := Option.map_eq_some_iff.1 hst
      cases hx
    · refine .inr ⟨⟨t.type, t.endpoint, id', i⟩, List.mem_append_right _ ?_, rfl, rfl⟩
      exact List.mem_map_of_mem (List.mem_range.2 (not_le.1 hi))
  · rw [if_neg fun hx => hid hx.1] at hst
    rcases h id' i hst with (hw | ⟨t', ht'⟩) | ⟨w, hw, hx⟩
    · exact .inl (.inl (hsub.pendingTask ▸ hw))
    · rw [ht] at ht'
      cases ht'
      exact absurd rfl hid
    · exact .inr ⟨w, List.mem_append_left _ hw, hx⟩

theorem completed (h : Settled s) {wc : Completion} (hc : Completed s wc s') : Settled s' := by
  intro id i hst
  rw [hc.status] at hst
  by_cases hw : id = wc.request.taskId ∧ i = wc.request.index
  · rw [if_pos hw] at hst
    obtain ⟨st, -, hx⟩ := Option.map_eq_some_iff.1 hst
    cases hs : wc.success <;> rw [hs] at hx <;> cases hx
  · rw [if_neg hw] at hst
    rcases h id i hst with hwait | ⟨w, hmem, hid, hi⟩
    · exact .inl ((hc.waits_iff id).2 hwait)
    · have hne : w ≠ wc.request := by
        rintro rfl
        exact hw ⟨hid.symm, hi.symm⟩
      exact .inr ⟨w, hc.outstanding ▸ (List.mem_erase_of_ne hne).2 hmem, hid, hi⟩

/-- A call of a driver, with what is in its hands at the end. -/
theorem drive (h : Settled s) (hmap : Mapped s) {inflight n : Nat} {badWr : Option Nat}
    {sendWc recvWc : List Completion} (hd : s.drive inflight badWr sendWc recvWc = some (n, s')) : Settled s' :=
  (hmap.drive_rule (P := Settled) (fun _ hm hs => hs.takeTask hm) (fun _ _ _ _ _ _ hs ht _ hsub => hs.submitted ht hsub)
    (fun _ _ _ hs hc => hs.completed hc) h hd).2

/-- With nothing in hand there is nothing to let go of. -/
theorem release (h : Settled s) (htask : s.task = none) : Settled { s with task := none } := by
  rw [← htask]
  exact h

/-- Letting go of a task loses it, if it has requests. -/
theorem task_of_release (hwf : WF s) (hpos : ∀ id t, s.task = some (id, t) → t.requestList ≠ [])
    (h : Settled { s with task := none }) : s.task = none := by
  cases htask : s.task with
  | none => rfl
  | some x =>
    obtain ⟨id, t⟩ := x
    obtain ⟨ht, hnot⟩ := hwf.held id t htask
    obtain ⟨r, rs, hrs⟩ := List.exists_cons_of_ne_nil (hpos id t htask)
    have hfirst : s.statusAt id 0 = some r.status := by simp [statusAt, ht, hrs]
    have hpending := hwf.untouched id (.inr ⟨t, htask⟩) 0 _ hfirst
    rw [hpending] at hfirst
    rcases h id 0 hfirst with (hw | ⟨t', ⟨⟩⟩) | ⟨w, hw, rfl, -⟩
    · exact absurd hw hnot
    · exact absurd (.inr ⟨t, htask⟩) (hwf.posted w hw).1

end Settled

/-! ## Runs -/

/-- No task is freed. -/
def keepsTasks : Event → Bool
  | .freeTask _ => false
  | _ => true

/-- No call is given the id of a task that is still in use. -/
def idsFree (s : Protocol) : Event → Bool
  | .send .. => decide s.IdFree
  | .receive .. => decide s.IdFree
  | _ => true

/-- `runStep` takes a task that a queue pair has room for, if it takes one. -/
def fits (s : Protocol) : Event → Bool
  | .runStep .. => s.spawnWorker || s.front.all fun t => decide (t.requestList.length ≤ s.maxWrPerQp)
  | _ => true

/-- Without a worker nothing is in hand between two calls. -/
structure Inv (s : Protocol) : Prop where
  mapped : Mapped s
  idle : s.spawnWorker = false → s.task = none
  settled : Settled s

theorem spawnWorker_drive {s s' : Protocol} {inflight n : Nat} {badWr : Option Nat} {sendWc recvWc : List Completion}
    (h : s.drive inflight badWr sendWc recvWc = some (n, s')) (hmap : Mapped s) : s'.spawnWorker = s.spawnWorker := by
  refine (hmap.drive_rule (P := fun x => x.spawnWorker = s.spawnWorker) ?_ ?_ ?_ rfl h).2
  · intro x _ hw
    rw [takeTask_eq]
    exact hw
  · exact fun x id t d k x' hw _ _ hsub => hsub.spawnWorker.trans hw
  · exact fun x wc x' hw hc => hc.spawnWorker.trans hw

/-- `runStep` does nothing beside a worker; otherwise it begins with nothing in hand, and lets go at its end. -/
theorem runStep_some {s s' : Protocol} {badWr : Option Nat} {sendWc recvWc : List Completion}
    (hidle : s.spawnWorker = false → s.task = none) (h : s.runStep badWr sendWc recvWc = some s') :
    (s.spawnWorker = true ∧ s' = s) ∨ (s.spawnWorker = false ∧ s.task = none ∧ ∃ n s1,
      s.drive 0 badWr sendWc recvWc = some (n, s1) ∧ s' = { s1 with task := none }) := by
  unfold runStep at h
  split at h
  · rename_i hw
    cases h
    exact .inl ⟨hw, rfl⟩
  · rename_i hw
    have hw := eq_false_of_ne_true hw
    obtain ⟨⟨n, s1⟩, hd, rfl⟩ := Option.map_eq_some_iff.1 h
    have he : { s with task := none } = s := by rw [← hidle hw]
    exact .inr ⟨hw, hidle hw, n, s1, he ▸ hd, rfl⟩

theorem worker_some {s s' : Protocol} {badWr : Option Nat} {sendWc recvWc : List Completion}
    (h : s.runBackgroundWorker badWr sendWc recvWc = some s') :
    s.spawnWorker = true ∧ ∃ n s1, s.drive s.inflightRequests badWr sendWc recvWc = some (n, s1) ∧
      s' = { s1 with inflightRequests := n } := by
  unfold runBackgroundWorker at h
  split at h
  · rename_i hw
    obtain ⟨⟨n, s1⟩, hd, rfl⟩ := Option.map_eq_some_iff.1 h
    exact ⟨hw, n, s1, hd, rfl⟩
  · cases h

/-- `runStep` leaves every pending request accounted for when the task it takes fits. -/
theorem settled_runStep {s s' : Protocol} {badWr : Option Nat} {sendWc recvWc : List Completion} (h : Inv s)
    (hfits : fits s (.runStep badWr sendWc recvWc) = true) (hs : s.runStep badWr sendWc recvWc = some s') :
    Settled s' := by
  obtain ⟨-, rfl⟩ | ⟨hw, hnone, n, s1, hd, rfl⟩ := runStep_some h.idle hs
  · exact h.settled
  · simp only [fits, hw, Bool.false_or, Option.all_eq_true, decide_eq_true_iff] at hfits
    exact (h.settled.drive h.mapped hd).release ((task_drive hnone hd).1 hfits)

/-- A task that does not fit is lost, if it was nowhere else. -/
theorem fits_of_settled {s s' : Protocol} {badWr : Option Nat} {sendWc recvWc : List Completion} (h : Inv s)
    (hwf : WF s) (hs : s.runStep badWr sendWc recvWc = some s') (hset : Settled s') :
    fits s (.runStep badWr sendWc recvWc) = true := by
  obtain ⟨hw, -⟩ | ⟨hw, hnone, n, s1, hd, rfl⟩ := runStep_some h.idle hs
  · simp [fits, hw]
  · simp only [fits, hw, Bool.false_or, Option.all_eq_true, decide_eq_true_iff]
    intro t hfront
    by_contra hle
    obtain ⟨id, hid⟩ := (task_drive hnone hd).2 t hfront (not_le.1 hle)
    have hpos : ∀ id' t', s1.task = some (id', t') → t'.requestList ≠ [] := by
      intro id' t' ht hnil
      rw [hid] at ht
      cases ht
      rw [hnil] at hle
      exact hle (Nat.zero_le _)
    rw [Settled.task_of_release (hwf.drive hd) hpos hset] at hid
    cases hid

theorem Inv.step {s s' : Protocol} {e : Event} (h : Inv s) (hkeep : keepsTasks e = true) (hfits : fits s e = true)
    (hs : step s e = some s') : Inv s' := by
  have henqueue : ∀ {bufferList : List Buffer} {s' : Protocol}, Enqueued s bufferList s' → Inv s' :=
    fun he => ⟨h.mapped.enqueue he, fun hw => he.task.trans (h.idle (he.spawnWorker ▸ hw)), h.settled.enqueue he⟩
  cases e with
  | send peerName bufferList created => cases hs; exact henqueue (enqueued _ _ _ _ _)
  | receive peerName bufferList created => cases hs; exact henqueue (enqueued _ _ _ _ _)
  | freeTask id => cases hkeep
  | runStep badWr sendWc recvWc =>
    have hset := settled_runStep h hfits hs
    obtain ⟨-, rfl⟩ | ⟨hw, -, n, s1, hd, rfl⟩ := runStep_some h.idle hs
    · exact h
    · exact ⟨(h.mapped.drive hd).release, fun _ => rfl, hset⟩
  | worker badWr sendWc recvWc =>
    obtain ⟨hw, n, s1, hd, rfl⟩ := worker_some hs
    have hset : Settled s1 := h.settled.drive h.mapped hd
    refine ⟨(h.mapped.drive hd).recount n, fun hw' => ?_, hset⟩
    have hw1 : s1.spawnWorker = true := (spawnWorker_drive hd h.mapped).trans hw
    exact absurd (hw1.symm.trans hw') (by decide)

theorem WF.step {s s' : Protocol} {e : Event} (h : WF s) (hidle : s.spawnWorker = false → s.task = none)
    (hkeep : keepsTasks e = true) (hfree : idsFree s e = true) (hs : step s e = some s') : WF s' := by
  cases e with
  | send peerName bufferList created => cases hs; exact h.enqueue (of_decide_eq_true hfree) (enqueued _ _ _ _ _)
  | receive peerName bufferList created => cases hs; exact h.enqueue (of_decide_eq_true hfree) (enqueued _ _ _ _ _)
  | freeTask id => cases hkeep
  | runStep badWr sendWc recvWc =>
    obtain ⟨-, rfl⟩ | ⟨-, -, n, s1, hd, rfl⟩ := runStep_some hidle hs
    · exact h
    · exact (h.drive hd).release
  | worker badWr sendWc recvWc =>
    obtain ⟨-, n, s1, hd, rfl⟩ := worker_some hs
    exact (h.drive hd).recount n

/-- In every run of `send`, `receive` and a driver whose `runStep` calls take tasks that fit, every pending request
belongs to a task that waits or is on a queue pair; without a worker, a task waits in the queue only. In the state
reached, the next event keeps it so exactly when it meets the condition itself, if no call was given the id of a task
that was still in use. -/
theorem no_task_lost (spawnWorker : Bool) (maxWrPerQp : Nat) (regions : List MemoryRegion) (connected : List String)
    (es : List Event) (s : Protocol)
    (hrun : Runs.Run step (fun s e => keepsTasks e = true ∧ fits s e = true)
      (start spawnWorker maxWrPerQp regions connected) es s) :
    Settled s ∧ (s.spawnWorker = false → s.task = none) ∧
    (Runs.Run step (fun s e => (keepsTasks e = true ∧ fits s e = true) ∧ idsFree s e = true)
        (start spawnWorker maxWrPerQp regions connected) es s →
      ∀ e s', keepsTasks e = true → step s e = some s' → (Settled s' ↔ fits s e = true)) := by
  have hstart : Inv (start spawnWorker maxWrPerQp regions connected) := by
    refine ⟨.start _ _ _ _, fun _ => rfl, ?_⟩
    rintro id i ⟨⟩
  have h : Inv s := hrun.invariant (P := Inv) hstart fun _ _ _ hx hok hs => hx.step hok.1 hok.2 hs
  refine ⟨h.settled, h.idle, fun hrun' e s' hkeep hs => ?_⟩
  have hwf : WF s := by
    refine (hrun'.invariant (P := fun x => Inv x ∧ WF x) ⟨hstart, .start _ _ _ _⟩ ?_).2
    rintro x f x' ⟨hx, hw⟩ ⟨hok, hfree⟩ hs
    exact ⟨hx.step hok.1 hok.2 hs, hw.step hx.idle hok.1 hfree hs⟩
  cases e with
  | runStep badWr sendWc recvWc => exact ⟨fits_of_settled h hwf hs, fun hfits => settled_runStep h hfits hs⟩
  | send => exact iff_of_true (h.step hkeep rfl hs).settled rfl
  | receive => exact iff_of_true (h.step hkeep rfl hs).settled rfl
  | freeTask => cases hkeep
  | worker => exact iff_of_true (h.step hkeep rfl hs).settled rfl

/-- Sixteen bytes at 100. -/
def smallRegion : MemoryRegion := ⟨.sample, 100, 16⟩

/-- A task of two requests and queue pairs of one: `runStep` takes it and leaves it. -/
theorem large_task_dropped : ∃ s,
    Runs.Run step (fun _ e => keepsTasks e = true) (start false 1 [smallRegion] ["a"])
      [.send "a" [⟨100, 2⟩, ⟨102, 2⟩] true, .runStep none [] []] s ∧
    s.statusAt 0 0 = some .pending ∧ s.statusAt 0 1 = some .pending ∧ s.pendingTask = [] ∧ s.task = none ∧
    s.outstanding = [] := by
  obtain ⟨s, hrun, ht⟩ := Runs.exists_run_of_exec step (fun _ e => keepsTasks e = true)
    (start false 1 [smallRegion] ["a"]) [.send "a" [⟨100, 2⟩, ⟨102, 2⟩] true, .runStep none [] []]
    (fun s : Protocol => decide (s.statusAt 0 0 = some .pending ∧ s.statusAt 0 1 = some .pending ∧ s.pendingTask = [] ∧
      s.task = none ∧ s.outstanding = [])) (by decide +kernel)
  exact ⟨s, hrun, of_decide_eq_true ht⟩

/-- With room for two, both are posted, and one of them completes. -/
theorem small_task_settled : ∃ s,
    Runs.Run step (fun s e => (keepsTasks e = true ∧ fits s e = true) ∧ idsFree s e = true)
      (start false 2 [smallRegion] ["a"])
      [.send "a" [⟨100, 2⟩, ⟨102, 2⟩] true, .runStep none [⟨⟨.send, "a", 0, 0⟩, true⟩] []] s ∧
    s.statusAt 0 0 = some .success ∧ s.statusAt 0 1 = some .pending ∧ Settled s ∧
    ∀ e s', keepsTasks e = true → step s e = some s' → (Settled s' ↔ fits s e = true) := by
  obtain ⟨s, hrun, ht⟩ := Runs.exists_run_of_exec step
    (fun s e => (keepsTasks e = true ∧ fits s e = true) ∧ idsFree s e = true) (start false 2 [smallRegion] ["a"])
    [.send "a" [⟨100, 2⟩, ⟨102, 2⟩] true, .runStep none [⟨⟨.send, "a", 0, 0⟩, true⟩] []]
    (fun s : Protocol => decide (s.statusAt 0 0 = some .success ∧ s.statusAt 0 1 = some .pending)) (by decide +kernel)
  obtain ⟨h0, h1⟩ := of_decide_eq_true ht
  obtain ⟨hset, -, hexact⟩ := no_task_lost false 2 [smallRegion] ["a"] _ s (hrun.weaken fun _ _ h => h.1)
  exact ⟨s, hrun, h0, h1, hset, hexact hrun⟩

end RapidTransfer.Reliable.Protocol
