/-
What becomes of the requests of a task in the reliable protocol. The status of a request is written at three places: the
endpoint marks what a post refuses, the driver marks what the post has not reached, and a poll writes what has
completed. The runs here carry a record of what became of every request, which no part of the code reads. A task that
is not freed, and whose id is not given out again, has at most one outcome for each of its requests, and its statuses
are what the record says (`Tracked`).

Other tasks may be freed at any time, also in the hands of a driver or on a queue pair: `Kept` is what the steps of the
others leave of a task.
-/
import RapidTransfer.Reliable.Lifetime

namespace RapidTransfer.Reliable

/-! ## What became of the requests -/

/-- What became of a request: it has completed, or a post has not taken it. -/
structure Outcome where
  taskId : Nat
  index : Nat
  success : Bool
  deriving DecidableEq, Repr

/-- A driver, with what has become of the requests. -/
structure Observed where
  driven : Driven
  outcomes : List Outcome

/-- The requests of a task that was posted and let go, without those that are on a queue pair. -/
def Protocol.refused (s s' : Protocol) : List Outcome :=
  match s.task, s'.task with
  | some (id, t), none =>
    let queued := fun i => s'.outstanding.any fun w => w.taskId = id ∧ w.index = i
    ((List.range t.requestList.length).filter fun i => !queued i).map fun i => ⟨id, i, false⟩
  | _, _ => []

/-- The outcomes of one step. -/
def Driven.outcomes (x : Driven) (a : Driven.Action) (x' : Driven) : List Outcome :=
  match a with
  | .post _ => x.protocol.refused x'.protocol
  | .complete wc => [⟨wc.request.taskId, wc.request.index, wc.success⟩]
  | _ => []

/-- The next task is not given the id of this one; and if it is this one, its id is not in `pending_task_`. -/
def Protocol.Spares (s : Protocol) (id : Nat) : Prop :=
  id + 2 ^ 32 ≠ s.nextTaskId ∧ (id = s.nextTaskId → ∀ id' ∈ s.pendingTask, id' % 2 ^ 32 ≠ id % 2 ^ 32)

instance (s : Protocol) (id : Nat) : Decidable (s.Spares id) :=
  inferInstanceAs (Decidable (id + 2 ^ 32 ≠ s.nextTaskId ∧
    (id = s.nextTaskId → ∀ id' ∈ s.pendingTask, id' % 2 ^ 32 ≠ id % 2 ^ 32)))

namespace Observed

def start (spawnWorker : Bool) (maxWrPerQp : Nat) (regions : List MemoryRegion) (connected : List String) : Observed :=
  ⟨⟨Protocol.start spawnWorker maxWrPerQp regions connected, .idle⟩, []⟩

def step (x : Observed) (a : Driven.Action) : Option Observed :=
  (x.driven.step a).map fun y => ⟨y, x.outcomes ++ x.driven.outcomes a y⟩

/-- The task is not freed and its id is not given out again, and was not in `pending_task_` when the task got it. -/
def keeps (id : Nat) (x : Observed) : Driven.Action → Prop
  | .send .. => x.driven.protocol.Spares id
  | .receive .. => x.driven.protocol.Spares id
  | .freeTask id' => x.driven.protocol.taskOf id' = id → x.driven.protocol.taskMap id = none
  | _ => True

instance (id : Nat) (x : Observed) : ∀ a, Decidable (keeps id x a)
  | .send .. => inferInstanceAs (Decidable (x.driven.protocol.Spares id))
  | .receive .. => inferInstanceAs (Decidable (x.driven.protocol.Spares id))
  | .freeTask id' =>
    inferInstanceAs (Decidable (x.driven.protocol.taskOf id' = id → x.driven.protocol.taskMap id = none))
  | .take => isTrue trivial
  | .post _ => isTrue trivial
  | .complete _ => isTrue trivial
  | .next => isTrue trivial

end Observed

namespace Protocol

variable {s s' : Protocol} {id : Nat}

theorem mem_refused_iff {i : Nat} {b : Bool} : ⟨id, i, b⟩ ∈ s.refused s' ↔ b = false ∧ s'.task = none ∧
    ∃ t, s.task = some (id, t) ∧ i < t.requestList.length ∧ ∀ w ∈ s'.outstanding, w.taskId = id → w.index ≠ i := by
  unfold refused
  split
  · rename_i id' t hs hs'
    rw [hs, hs']
    simp only [List.mem_map, List.mem_filter, List.mem_range, Outcome.mk.injEq]
    constructor
    · rintro ⟨i', ⟨hi, hq⟩, rfl, rfl, rfl⟩
      refine ⟨rfl, trivial, t, rfl, hi, fun w hw hid hx => ?_⟩
      simp only [Bool.not_eq_true', List.any_eq_false, decide_eq_true_eq] at hq
      exact hq w hw ⟨hid, hx⟩
    · rintro ⟨rfl, -, t', ht, hi, hq⟩
      cases ht
      refine ⟨i, ⟨hi, ?_⟩, rfl, rfl, rfl⟩
      simp only [Bool.not_eq_true', List.any_eq_false, decide_eq_true_eq]
      exact fun w hw hx => hq w hw hx.1 hx.2
  · rename_i hno
    refine iff_of_false List.not_mem_nil ?_
    rintro ⟨-, hs', t, hs, -⟩
    exact hno id t hs hs'

theorem refused_recount (s s' : Protocol) (n : Nat) : s.refused (s'.recount n) = s.refused s' := by
  unfold Protocol.recount
  split <;> rfl

/-! ## One task -/

/-- The work requests of a task that are outstanding. -/
def mine (s : Protocol) (id : Nat) : List WorkRequest := s.outstanding.filter fun w => w.taskId = id

theorem mem_mine {w : WorkRequest} : w ∈ s.mine id ↔ w ∈ s.outstanding ∧ w.taskId = id := by
  simp [mine]

theorem waits_iff_count : s.Waits id ↔ 0 < s.pendingTask.count id ∨ ∃ t, s.task = some (id, t) := by
  unfold Waits
  rw [List.count_pos_iff]

/-- A step that leaves one task where it is, or lets go of it. -/
structure Kept (id : Nat) (s s' : Protocol) : Prop where
  taskMap : s'.taskMap id = s.taskMap id
  mine : (s'.mine id).Perm (s.mine id)
  queued : s'.pendingTask.count id ≤ s.pendingTask.count id
  held : ∀ t, s'.task = some (id, t) → s.task = some (id, t)
  nextTaskId : s.nextTaskId ≤ s'.nextTaskId

namespace Kept

theorem refl (id : Nat) (s : Protocol) : Kept id s s := ⟨rfl, .rfl, le_rfl, fun _ ht => ht, le_rfl⟩

theorem trans {s1 : Protocol} (h : Kept id s s1) (h' : Kept id s1 s') : Kept id s s' :=
  ⟨h'.taskMap.trans h.taskMap, h'.mine.trans h.mine, h'.queued.trans h.queued, fun t ht => h.held t (h'.held t ht),
    h.nextTaskId.trans h'.nextTaskId⟩

theorem of_frame (hf : Frame s s') (htask : s'.taskMap id = s.taskMap id) (hmine : (s'.mine id).Perm (s.mine id)) :
    Kept id s s' :=
  ⟨htask, hmine, hf.pendingTask ▸ le_rfl, fun _ ht => hf.task ▸ ht, hf.nextTaskId ▸ le_rfl⟩

theorem release (id : Nat) (s : Protocol) : Kept id s { s with task := none } := by
  refine ⟨rfl, .rfl, le_rfl, ?_, le_rfl⟩
  rintro t ⟨⟩

theorem recount (id : Nat) (s : Protocol) (n : Nat) : Kept id s (s.recount n) := by
  unfold Protocol.recount
  split
  · exact ⟨rfl, .rfl, le_rfl, fun _ ht => ht, le_rfl⟩
  · exact refl id s

theorem letGo (id : Nat) (s : Protocol) : Kept id s s.letGo := by
  unfold Protocol.letGo
  split
  · exact refl id s
  · exact release id s

theorem waits (h : Kept id s s') (hid : s'.Waits id) : s.Waits id := by
  rw [waits_iff_count] at hid ⊢
  rcases hid with hid | ⟨t, ht⟩
  · exact .inl (hid.trans_le h.queued)
  · exact .inr ⟨t, h.held t ht⟩

theorem statusAt (h : Kept id s s') (i : Nat) : s'.statusAt id i = s.statusAt id i := by
  unfold Protocol.statusAt
  rw [h.taskMap]

/-- Another task is new, with another id. -/
theorem enqueue {bufferList : List Buffer} (he : Enqueued s bufferList s') (hid : id ≠ s.nextTaskId)
    (hold : id + 2 ^ 32 ≠ s.nextTaskId) : Kept id s s' := by
  refine ⟨he.others hid hold, ?_, ?_, fun t ht => he.task ▸ ht, he.nextTaskId ▸ Nat.le_succ _⟩
  · unfold Protocol.mine
    rw [he.outstanding]
  · rcases he.tasks with ⟨hp, -⟩ | ⟨t, hp, -⟩
    · rw [hp]
    · rw [hp, List.count_append, List.count_singleton, if_neg (by simpa using hid.symm), Nat.add_zero]

/-- Another task is freed. -/
theorem freeTask {id' : Nat} (hid : s.taskOf id' = id → s.taskMap id = none) : Kept id s (s.freeTask id') := by
  refine ⟨?_, .rfl, le_rfl, fun _ ht => ht, le_rfl⟩
  by_cases he : s.taskOf id' = id
  · rw [← he, taskMap_freeTask_self, he, hid he]
  · exact taskMap_freeTask_of_ne s (Ne.symm he)

/-- Another task is posted; it may have been freed. -/
theorem submit {id' : Nat} {t : Task} {badWr : Option Nat} {ret : Int} (hid : id ≠ id')
    (h : s.submit id' t badWr = some (ret, s')) : Kept id s s' := by
  have hmodify : ∀ (y : Protocol) (f : List Request → List Request), Kept id y (y.modifyTask id' f) := fun y f =>
    ⟨taskMap_modifyTask_of_ne y f hid, .rfl, le_rfl, fun _ ht => ht, le_rfl⟩
  obtain ⟨m, rfl⟩ | ⟨n, k, m, rfl⟩ := submit_cases h
  · exact hmodify _ _
  · have henlist : Kept id s (s.enlist t.type id' t n) := by
      refine ⟨rfl, ?_, le_rfl, fun _ ht => ht, le_rfl⟩
      -- the new work requests are of the other task
      have hnone : ((List.range n).map fun i => WorkRequest.mk t.type t.endpoint id' i).filter
          (fun w => w.taskId = id) = [] := by
        rw [List.filter_eq_nil_iff]
        intro w hw
        obtain ⟨i, -, rfl⟩ := List.mem_map.1 hw
        simpa using hid.symm
      show (List.filter _ (s.outstanding ++ _)).Perm _
      rw [List.filter_append, hnone, List.append_nil]
      exact .rfl
    exact henlist.trans ((hmodify _ _).trans (hmodify _ _))

/-- A request of another task has completed. -/
theorem completed {wc : Completion} (hid : id ≠ wc.request.taskId) (hc : Completed s wc s') : Kept id s s' := by
  refine of_frame hc.toFrame (hc.others id hid) ?_
  have hperm := (List.perm_cons_erase hc.mem).filter fun w => w.taskId = id
  rw [List.filter_cons_of_neg (by simpa using hid.symm), ← hc.outstanding] at hperm
  exact hperm.symm

end Kept

/-! ## Ids -/

/-- The id of the task has not been given out again, and nothing else in the queue has it. -/
structure Current (id : Nat) (s : Protocol) : Prop where
  own : s.nextTaskId ≤ id + 2 ^ 32
  queued : ∀ id' ∈ s.pendingTask, id' < s.nextTaskId ∧ (id < s.nextTaskId → id' % 2 ^ 32 = id % 2 ^ 32 → id' = id)

namespace Current

theorem taskOf_queued (h : Current id s) {id' : Nat} (hid : id' ∈ s.pendingTask) : s.taskOf id' = id ↔ id' = id := by
  obtain ⟨hlt, hother⟩ := h.queued id' hid
  constructor
  · rintro rfl
    exact hother (taskOf_lt hlt) (s.taskOf_mod id').symm
  · rintro rfl
    exact taskOf_eq hlt h.own

theorem shrink (h : Current id s) (hnext : s'.nextTaskId = s.nextTaskId) (hsub : s'.pendingTask ⊆ s.pendingTask) :
    Current id s' :=
  ⟨hnext ▸ h.own, fun id' hid => hnext ▸ h.queued id' (hsub hid)⟩

theorem enqueue (h : Current id s) (hre : s.Spares id) {bufferList : List Buffer} (he : Enqueued s bufferList s') :
    Current id s' := by
  constructor
  · have := h.own
    have := hre.1
    rw [he.nextTaskId]
    omega
  · intro id' hid
    rw [he.nextTaskId]
    rcases he.mem_pendingTask hid with hid | ⟨rfl, -⟩
    · obtain ⟨hlt, hother⟩ := h.queued id' hid
      refine ⟨Nat.lt_succ_of_lt hlt, fun hle hmod => ?_⟩
      rcases Nat.lt_succ_iff_lt_or_eq.1 hle with hid' | hid'
      · exact hother hid' hmod
      · exact absurd hmod (hre.2 hid' id' hid)
    · have := h.own
      have := hre.1
      omega

theorem takeTask (h : Current id s) : Current id s.takeTask := by
  obtain he | ⟨first, rest, -, hpending, he⟩ := s.takeTask_cases
  · rw [he]
    exact h
  · rw [he]
    exact h.shrink rfl (hpending ▸ List.subset_cons_self _ _)

theorem postTask (h : Current id s) {inflight n : Nat} {badWr : Option Nat}
    (hp : s.postTask inflight badWr = some (n, s')) : Current id s' := by
  obtain ⟨-, -, rfl⟩ | ⟨id', t, -, ⟨-, -, rfl⟩ | ⟨ret, x, -, hsub, -, rfl⟩⟩ := postTask_some hp
  · exact h
  · exact h
  · obtain ⟨m, rfl⟩ | ⟨k, l, m, rfl⟩ := submit_cases hsub
    · exact h.shrink rfl (List.Subset.refl _)
    · exact h.shrink rfl (List.Subset.refl _)

theorem recount (h : Current id s) (n : Nat) : Current id (s.recount n) := by
  unfold Protocol.recount
  split
  · exact ⟨h.own, h.queued⟩
  · exact h

theorem letGo (h : Current id s) : Current id s.letGo := by
  unfold Protocol.letGo
  split
  · exact h
  · exact ⟨h.own, h.queued⟩

end Current

/-! ## The invariant of a task -/

/-- A task that is not freed: it is at one place, its outstanding requests are pending and outstanding once, and the
statuses of the others say what became of them. -/
structure Tracked (id : Nat) (s : Protocol) (log : List Outcome) : Prop where
  once : s.pendingTask.count id ≤ 1
  held : ∀ t, s.task = some (id, t) → s.taskMap id = some t ∧ id ∉ s.pendingTask
  issued : s.nextTaskId ≤ id → ¬ s.Waits id ∧ s.taskMap id = none ∧ s.mine id = []
  waiting : s.Waits id → s.mine id = [] ∧ ∀ i st, s.statusAt id i = some st → st = .pending
  distinct : (s.mine id).Pairwise fun w w' => w.index ≠ w'.index
  pending : ∀ w ∈ s.mine id, s.statusAt id w.index = some .pending
  recorded : ∀ i b, ⟨id, i, b⟩ ∈ log ↔ s.statusAt id i = some (if b then .success else .failed)
  known : ∀ i, s.statusAt id i ≠ some .unknown

/-- The requests of a task that was just posted are in the order of their indices. -/
theorem mine_submitted (hmine : s.mine id = []) {n : Nat} {t : Task} (hsub : Submitted s id t n s') :
    s'.mine id = (List.range n).map fun i => WorkRequest.mk t.type t.endpoint id i := by
  unfold mine at hmine ⊢
  rw [hsub.outstanding, List.filter_append, hmine, List.nil_append, List.filter_eq_self]
  intro w hw
  obtain ⟨i, -, rfl⟩ := List.mem_map.1 hw
  exact decide_eq_true rfl

theorem statusAt_submitted {t : Task} {n : Nat} (hmap : s.taskMap id = some t)
    (hpend : ∀ i st, s.statusAt id i = some st → st = .pending) (hn : n ≤ t.requestList.length)
    (hsub : Submitted s id t n s') (i : Nat) : s'.statusAt id i =
      if i < n then some .pending else if i < t.requestList.length then some .failed else none := by
  rw [hsub.status]
  by_cases hi : i < t.requestList.length
  · have hst : s.statusAt id i = some .pending := by
      have hx : s.statusAt id i = some (t.requestList[i]).status := by simp [statusAt, hmap, hi]
      rw [hx, hpend i _ hx]
    by_cases hni : n ≤ i
    · simp [hst, hni, hi]
    · simp [hst, hni, not_le.1 hni]
  · have hni : ¬ i < n := fun hx => hi (hx.trans_le hn)
    simp [statusAt_beyond hmap (not_lt.1 hi), hi, hni]

/-- The requests that a post has not taken are those from `n` on. -/
theorem mem_refused_submitted {t : Task} (htask : s.task = some (id, t)) (hmine : s.mine id = []) {n : Nat}
    (hsub : Submitted s id t n s') {i : Nat} {b : Bool} :
    ⟨id, i, b⟩ ∈ s.refused { s' with task := none } ↔ b = false ∧ n ≤ i ∧ i < t.requestList.length := by
  have hmem : ∀ w, w ∈ s'.outstanding ∧ w.taskId = id ↔ ∃ j < n, w = ⟨t.type, t.endpoint, id, j⟩ := by
    intro w
    rw [← mem_mine, mine_submitted hmine hsub, List.mem_map]
    simp only [List.mem_range, eq_comm]
  rw [mem_refused_iff]
  constructor
  · rintro ⟨hb, -, t', ht', hi, hq⟩
    rw [htask] at ht'
    cases ht'
    refine ⟨hb, not_lt.1 fun hin => ?_, hi⟩
    obtain ⟨hw, hid⟩ := (hmem _).2 ⟨i, hin, rfl⟩
    exact hq _ hw hid rfl
  · rintro ⟨hb, hni, hi⟩
    refine ⟨hb, rfl, t, htask, hi, fun w hw hid he => ?_⟩
    obtain ⟨j, hj, rfl⟩ := (hmem w).1 ⟨hw, hid⟩
    exact (not_lt.2 hni) (he ▸ hj)

namespace Tracked

variable {log log' : List Outcome} {t : Task}

theorem start (id : Nat) (spawnWorker : Bool) (maxWrPerQp : Nat) (regions : List MemoryRegion)
    (connected : List String) : Tracked id (start spawnWorker maxWrPerQp regions connected) [] := by
  have hwaits : ¬ (Protocol.start spawnWorker maxWrPerQp regions connected).Waits id := by
    rintro (hid | ⟨t, ⟨⟩⟩)
    exact absurd hid List.not_mem_nil
  refine ⟨Nat.zero_le _, ?_, fun _ => ⟨hwaits, rfl, rfl⟩, fun hw => absurd hw hwaits, .nil, ?_, ?_, ?_⟩
  · rintro t ⟨⟩
  · rintro w ⟨⟩
  · exact fun i b => iff_of_false List.not_mem_nil fun h => by cases h
  · exact fun i h => by cases h

theorem kept (h : Tracked id s log) (hk : Kept id s s') (hlog : ∀ i b, ⟨id, i, b⟩ ∈ log' ↔ ⟨id, i, b⟩ ∈ log) :
    Tracked id s' log' := by
  constructor
  · exact hk.queued.trans h.once
  · intro t ht
    obtain ⟨hmap, hno⟩ := h.held t (hk.held t ht)
    refine ⟨hk.taskMap.trans hmap, ?_⟩
    rw [← List.count_eq_zero] at hno ⊢
    exact Nat.le_zero.1 (hno ▸ hk.queued)
  · intro hle
    obtain ⟨hw, hmap, hmine⟩ := h.issued (hk.nextTaskId.trans hle)
    exact ⟨fun hx => hw (hk.waits hx), hk.taskMap.trans hmap, (hmine ▸ hk.mine).eq_nil⟩
  · intro hw
    obtain ⟨hmine, hst⟩ := h.waiting (hk.waits hw)
    refine ⟨(hmine ▸ hk.mine).eq_nil, fun i st hi => ?_⟩
    rw [hk.statusAt] at hi
    exact hst i st hi
  · exact (hk.mine.pairwise_iff Ne.symm).2 h.distinct
  · intro w hw
    rw [hk.statusAt]
    exact h.pending w (hk.mine.mem_iff.1 hw)
  · intro i b
    rw [hlog, hk.statusAt]
    exact h.recorded i b
  · intro i
    rw [hk.statusAt]
    exact h.known i

/-- A task that is new: it is in the queue, with all its requests pending, or it was refused. -/
theorem created (h : Tracked s.nextTaskId s log) {bufferList : List Buffer} (he : Enqueued s bufferList s') :
    Tracked s.nextTaskId s' log := by
  obtain ⟨hw, hmap, hmine⟩ := h.issued le_rfl
  have hmine' : s'.mine s.nextTaskId = [] := by
    unfold mine at hmine ⊢
    rw [he.outstanding, hmine]
  have hnew : ∀ i st, s'.statusAt s.nextTaskId i = some st → st = .pending := fun i st hst => he.statusAt_new hst
  constructor
  · have hzero : s.pendingTask.count s.nextTaskId = 0 := List.count_eq_zero.2 fun hx => hw (.inl hx)
    rcases he.tasks with ⟨hp, -⟩ | ⟨t, hp, -⟩
    · rw [hp, hzero]
      exact Nat.zero_le _
    · rw [hp, List.count_append, hzero, List.count_singleton_self]
  · exact fun t ht => absurd (.inr ⟨t, he.task ▸ ht⟩) hw
  · intro hle
    rw [he.nextTaskId] at hle
    omega
  · exact fun _ => ⟨hmine', hnew⟩
  · rw [hmine']
    exact .nil
  · rw [hmine']
    rintro w ⟨⟩
  · intro i b
    refine iff_of_false ?_ fun hst => ?_
    · rw [h.recorded, statusAt_of_none hmap]
      exact fun hx => by cases hx
    · have := hnew i _ hst
      cases b <;> cases this
  · intro i hst
    cases hnew i _ hst

theorem enqueue (h : Tracked id s log) (hre : s.Spares id) {bufferList : List Buffer} (he : Enqueued s bufferList s') :
    Tracked id s' log := by
  by_cases hid : id = s.nextTaskId
  · subst hid
    exact h.created he
  · exact h.kept (.enqueue he hid hre.1) fun _ _ => Iff.rfl

theorem takeTask (h : Tracked id s log) (hcur : Current id s) : Tracked id s.takeTask log := by
  obtain he | ⟨first, rest, htask, hpending, he⟩ := s.takeTask_cases
  · rw [he]
    exact h
  · have hfirst := hcur.taskOf_queued (hpending ▸ List.mem_cons_self : first ∈ s.pendingTask)
    rw [he]
    by_cases hid : first = id
    · -- the task goes from the queue into the hands of the driver
      rw [hfirst.2 hid]
      subst hid
      have hw : s.Waits first := .inl (hpending ▸ List.mem_cons_self)
      have hzero : rest.count first = 0 := by
        have honce := h.once
        rw [hpending, List.count_cons_self] at honce
        omega
      refine ⟨hzero ▸ Nat.zero_le _, ?_, fun hle => absurd hw (h.issued hle).1, fun _ => h.waiting hw, h.distinct,
        h.pending, h.recorded, h.known⟩
      intro t ht
      obtain ⟨t', ht', hx⟩ := Option.map_eq_some_iff.1 ht
      cases hx
      exact ⟨ht', List.count_eq_zero.1 hzero⟩
    · refine h.kept ⟨rfl, .rfl, ?_, ?_, le_rfl⟩ fun _ _ => Iff.rfl
      · rw [hpending, List.count_cons_of_ne hid]
      · intro t ht
        obtain ⟨t', -, hx⟩ := Option.map_eq_some_iff.1 ht
        exact absurd (hfirst.1 (congrArg Prod.fst hx)) hid

/-- The task in hand is posted: its first requests are on the queue pair, and the others have failed. -/
theorem submitted (h : Tracked id s log) (ht : s.task = some (id, t)) {n : Nat} (hn : n ≤ t.requestList.length)
    (hsub : Submitted s id t n s') :
    Tracked id { s' with task := none } (log ++ s.refused { s' with task := none }) := by
  have hw : s.Waits id := .inr ⟨t, ht⟩
  obtain ⟨hmap, hno⟩ := h.held t ht
  obtain ⟨hmine, hpend⟩ := h.waiting hw
  have hposted := mine_submitted hmine hsub
  have hmine' : mine { s' with task := none } id = (List.range n).map fun i => WorkRequest.mk t.type t.endpoint id i :=
    hposted
  have hpositions := statusAt_submitted hmap hpend hn hsub
  have hstatus : ∀ i, statusAt { s' with task := none } id i =
      if i < n then some .pending else if i < t.requestList.length then some .failed else none := hpositions
  refine ⟨hsub.pendingTask.symm ▸ h.once, ?_, ?_, ?_, ?_, ?_, ?_, ?_⟩
  · rintro t ⟨⟩
  · intro hle
    exact absurd hw (h.issued (hsub.nextTaskId ▸ hle)).1
  · rintro (hx | ⟨t, ⟨⟩⟩)
    exact absurd (hsub.pendingTask ▸ hx) hno
  · rw [hmine', List.pairwise_map]
    exact List.pairwise_lt_range.imp fun hx => hx.ne
  · intro w hx
    rw [hmine'] at hx
    obtain ⟨i, hi, rfl⟩ := List.mem_map.1 hx
    rw [hstatus, if_pos (List.mem_range.1 hi)]
  · intro i b
    -- nothing was recorded of a task that waits
    have hlog : ⟨id, i, b⟩ ∉ log := by
      rw [h.recorded]
      intro hx
      have := hpend i _ hx
      cases b <;> cases this
    rw [List.mem_append, or_iff_right hlog, mem_refused_submitted ht hmine hsub, hstatus]
    by_cases hin : i < n
    · cases b <;> simp [hin]
    · by_cases hi : i < t.requestList.length
      · cases b <;> simp [hin, hi, not_lt.1 hin]
      · cases b <;> simp [hin, hi]
  · intro i
    rw [hstatus]
    split
    · exact fun hx => by cases hx
    · split <;> exact fun hx => by cases hx

/-- A request of the task has completed. -/
theorem completed (h : Tracked id s log) {wc : Completion} (hid : wc.request.taskId = id) (hc : Completed s wc s') :
    Tracked id s' (log ++ [⟨id, wc.request.index, wc.success⟩]) := by
  have hmem : wc.request ∈ s.mine id := mem_mine.2 ⟨hc.mem, hid⟩
  have hw : ¬ s.Waits id := by
    intro hw
    rw [(h.waiting hw).1] at hmem
    cases hmem
  have hw' : ¬ s'.Waits id := fun hx => hw ((hc.waits_iff id).1 hx)
  have hpend := h.pending _ hmem
  have hperm : (s.mine id).Perm (wc.request :: s'.mine id) := by
    have hx := (List.perm_cons_erase hc.mem).filter fun w => w.taskId = id
    rw [List.filter_cons_of_pos (by simpa using hid), ← hc.outstanding] at hx
    exact hx
  obtain ⟨hother, hdistinct⟩ := List.pairwise_cons.1 ((hperm.pairwise_iff Ne.symm).1 h.distinct)
  have hself : s'.statusAt id wc.request.index = some (if wc.success then .success else .failed) := by
    rw [hc.status, if_pos ⟨hid.symm, rfl⟩, hpend]
    rfl
  have hothers : ∀ i, i ≠ wc.request.index → s'.statusAt id i = s.statusAt id i := fun i hi => by
    rw [hc.status, if_neg fun hx => hi hx.2]
  refine ⟨hc.pendingTask ▸ h.once, ?_, ?_, fun hx => absurd hx hw', hdistinct, ?_, ?_, ?_⟩
  · exact fun t ht => absurd (.inr ⟨t, ht⟩) hw'
  · intro hle
    rw [(h.issued (hc.nextTaskId ▸ hle)).2.2] at hmem
    cases hmem
  · intro w hx
    rw [hothers w.index (hother w hx).symm]
    exact h.pending w (hperm.mem_iff.2 (List.mem_cons_of_mem _ hx))
  · intro i b
    rw [List.mem_append, List.mem_singleton, h.recorded]
    by_cases hi : i = wc.request.index
    · subst hi
      rw [hself, hpend]
      cases b <;> cases wc.success <;> simp
    · rw [hothers i hi]
      simp [hi]
  · intro i
    by_cases hi : i = wc.request.index
    · rw [hi, hself]
      cases wc.success <;> exact fun hx => by cases hx
    · rw [hothers i hi]
      exact h.known i

theorem postTask (h : Tracked id s log) {inflight n : Nat} {badWr : Option Nat}
    (hp : s.postTask inflight badWr = some (n, s')) : Tracked id s' (log ++ s.refused s') := by
  have hsame : s.refused s' = [] → s' = s → Tracked id s' (log ++ s.refused s') := by
    rintro hnone rfl
    rw [hnone, List.append_nil]
    exact h
  obtain ⟨hnone, -, rfl⟩ | ⟨id', t, htask, ⟨-, -, rfl⟩ | ⟨ret, x, -, hsub, -, rfl⟩⟩ := postTask_some hp
  · exact hsame (by unfold refused; rw [hnone]) rfl
  · exact hsame (by unfold refused; rw [htask]) rfl
  · by_cases hid : id = id'
    · subst hid
      obtain ⟨d, k, -, hpos, hret, hk, -, hsub⟩ := submit_some (size_of_some (h.held t htask).1) hsub
      exact h.submitted htask (by omega) hsub
    · refine h.kept ((Kept.submit hid hsub).trans (.release id x)) fun i b => ?_
      rw [List.mem_append, or_iff_left]
      intro hx
      obtain ⟨-, -, t', ht', -⟩ := mem_refused_iff.1 hx
      rw [htask] at ht'
      exact hid (congrArg Prod.fst (Option.some.inj ht')).symm

theorem complete (h : Tracked id s log) {wc : Completion} (hc : Completed s wc s') :
    Tracked id s' (log ++ [⟨wc.request.taskId, wc.request.index, wc.success⟩]) := by
  by_cases hid : wc.request.taskId = id
  · rw [hid]
    exact h.completed hid hc
  · refine h.kept (.completed (Ne.symm hid) hc) fun i b => ?_
    rw [List.mem_append, or_iff_left]
    intro hx
    cases List.mem_singleton.1 hx
    exact hid rfl

end Tracked

/-! ## Lengths -/

/-- The lengths of the requests of a task. -/
def lengths (s : Protocol) (id : Nat) : Option (List Nat) := (s.taskMap id).map fun t => t.requestList.map (·.length)

theorem lengths_modifyTask (s : Protocol) (id id' : Nat) {f : List Request → List Request}
    (hf : ∀ l, (f l).map (·.length) = l.map (·.length)) : (s.modifyTask id' f).lengths id = s.lengths id := by
  unfold lengths modifyTask
  by_cases hid : id = id'
  · subst hid
    cases s.taskMap id <;> simp [hf]
  · simp [hid]

theorem map_length_failRange (lo hi : Nat) (l : List Request) :
    (failRange lo hi l).map (·.length) = l.map (·.length) := by
  refine List.ext_getElem (by simp [failRange]) fun i h1 h2 => ?_
  simp only [failRange, List.getElem_map, List.getElem_mapIdx]
  split <;> rfl

theorem map_length_modify (status : Status) (i : Nat) (l : List Request) :
    (l.modify i fun r => { r with status := status }).map (·.length) = l.map (·.length) := by
  refine List.ext_getElem (by simp) fun j h1 h2 => ?_
  simp only [List.getElem_map, List.getElem_modify]
  split <;> rfl

theorem lengths_postTask {inflight n : Nat} {badWr : Option Nat} (hp : s.postTask inflight badWr = some (n, s')) :
    s'.lengths id = s.lengths id := by
  obtain ⟨-, -, rfl⟩ | ⟨id', t, -, ⟨-, -, rfl⟩ | ⟨ret, x, -, hsub, -, rfl⟩⟩ := postTask_some hp
  · rfl
  · rfl
  · have hmark : ∀ (y : Protocol) (lo hi : Nat), (y.modifyTask id' (failRange lo hi)).lengths id = y.lengths id :=
      fun y lo hi => y.lengths_modifyTask id id' (map_length_failRange lo hi)
    obtain ⟨m, rfl⟩ | ⟨k, l, m, rfl⟩ := submit_cases hsub
    · exact hmark _ _ _
    · exact (hmark _ _ _).trans (hmark _ _ _)

theorem lengths_complete {cq : RequestType} {wc : Completion} (h : s.complete cq wc = some s') :
    s'.lengths id = s.lengths id := by
  unfold Protocol.complete at h
  split at h
  · split at h
    · cases h
    · cases h
      exact lengths_modifyTask _ id _ (map_length_modify _ _)
  · cases h

theorem Kept.lengths (h : Kept id s s') : s'.lengths id = s.lengths id := by
  unfold Protocol.lengths
  rw [h.taskMap]

end Protocol

/-! ## Steps and runs -/

namespace Observed

open Protocol

variable {id : Nat} {x y : Observed} {a : Driven.Action}

/-- The record restricts nothing: every run of the drivers has one. -/
theorem exists_run {ok : Driven → Driven.Action → Prop} (hok : ∀ (z : Observed) a, ok z.driven a → keeps id z a)
    {as : List Driven.Action} {y : Driven} (h : Runs.Run Driven.step ok x.driven as y) :
    ∃ log, Runs.Run step (keeps id) x as ⟨y, log⟩ := by
  induction h with
  | nil => exact ⟨x.outcomes, .nil⟩
  | @snoc as y y' a _ hoka hstep ih =>
    obtain ⟨log, hrun⟩ := ih
    refine ⟨log ++ y.outcomes a y', .snoc hrun (hok ⟨y, log⟩ a hoka) ?_⟩
    simp only [step, hstep, Option.map_some]

/-- A call of `runStep` without a worker, and a round of the worker, do not free the task. -/
theorem exists_round {s s' : Protocol} {badWr : Option Nat} {sendWc recvWc : List Completion} (log : List Outcome)
    (hidle : s.spawnWorker = false → s.task = none)
    (h : (s.spawnWorker = false ∧ Protocol.step s (.runStep badWr sendWc recvWc) = some s') ∨
      Protocol.step s (.worker badWr sendWc recvWc) = some s') :
    ∃ log', Runs.Run step (keeps id) ⟨⟨s, .idle⟩, log⟩ (Driven.round badWr sendWc recvWc) ⟨⟨s', .idle⟩, log'⟩ := by
  have hrun := @Driven.drives_round (fun z a => ∀ log, keeps id ⟨z, log⟩ a) s s' badWr sendWc recvWc
    (fun z => ⟨fun _ => trivial, fun _ => trivial, fun _ => trivial, fun _ _ => trivial⟩) hidle h
  exact exists_run (x := ⟨⟨s, .idle⟩, log⟩) (fun z a hz => hz z.outcomes) hrun

theorem current_step (h : x.driven.protocol.Current id) (hk : keeps id x a) (hs : x.step a = some y) :
    y.driven.protocol.Current id := by
  obtain ⟨z, hz, rfl⟩ := Option.map_eq_some_iff.1 hs
  cases a with
  | send peerName bufferList created =>
    cases hz
    exact h.enqueue hk (enqueued _ _ _ _ _)
  | receive peerName bufferList created =>
    cases hz
    exact h.enqueue hk (enqueued _ _ _ _ _)
  | freeTask id' =>
    cases hz
    exact h.shrink rfl (List.Subset.refl _)
  | take =>
    simp only [Driven.step] at hz
    split at hz
    · cases hz
      exact h.takeTask
    · cases hz
  | post badWr =>
    simp only [Driven.step] at hz
    split at hz
    · obtain ⟨⟨n, s⟩, hp, rfl⟩ := Option.map_eq_some_iff.1 hz
      exact (h.postTask hp).recount n
    · cases hz
  | complete wc =>
    simp only [Driven.step] at hz
    split at hz
    · obtain ⟨s, hc, rfl⟩ := Option.map_eq_some_iff.1 hz
      have hf := (complete_some hc).toFrame
      exact (h.shrink hf.nextTaskId (hf.pendingTask ▸ List.Subset.refl _)).recount _
    · cases hz
  | next =>
    simp only [Driven.step] at hz
    split at hz
    · cases hz
      exact h
    · cases hz
      exact h.letGo
    · cases hz

/-- One step: the task stays tracked, and the lengths of its requests stay. -/
theorem tracked_step (h : x.driven.protocol.Tracked id x.outcomes) (hcur : x.driven.protocol.Current id)
    (hk : keeps id x a) (hs : x.step a = some y) :
    y.driven.protocol.Tracked id y.outcomes ∧
      (id < x.driven.protocol.nextTaskId → y.driven.protocol.lengths id = x.driven.protocol.lengths id) := by
  obtain ⟨z, hz, rfl⟩ := Option.map_eq_some_iff.1 hs
  -- most steps add no outcome
  have hquiet : x.driven.outcomes a z = [] → z.protocol.Tracked id x.outcomes →
      z.protocol.Tracked id (x.outcomes ++ x.driven.outcomes a z) := by
    intro hnil hz
    rw [hnil, List.append_nil]
    exact hz
  cases a with
  | send peerName bufferList created =>
    cases hz
    exact ⟨hquiet rfl (h.enqueue hk (enqueued _ _ _ _ _)),
      fun hid => (Kept.enqueue (enqueued _ _ _ _ _) hid.ne hk.1).lengths⟩
  | receive peerName bufferList created =>
    cases hz
    exact ⟨hquiet rfl (h.enqueue hk (enqueued _ _ _ _ _)),
      fun hid => (Kept.enqueue (enqueued _ _ _ _ _) hid.ne hk.1).lengths⟩
  | freeTask id' =>
    cases hz
    have hkept : Kept id x.driven.protocol (x.driven.protocol.freeTask id') := .freeTask hk
    exact ⟨hquiet rfl (h.kept hkept fun _ _ => Iff.rfl), fun _ => hkept.lengths⟩
  | take =>
    simp only [Driven.step] at hz
    split at hz
    · cases hz
      refine ⟨hquiet rfl (h.takeTask hcur), fun _ => ?_⟩
      show x.driven.protocol.takeTask.lengths id = _
      rw [takeTask_eq]
      rfl
    · cases hz
  | post badWr =>
    simp only [Driven.step] at hz
    split at hz
    · obtain ⟨⟨n, s⟩, hp, rfl⟩ := Option.map_eq_some_iff.1 hz
      refine ⟨(h.postTask hp).kept (.recount id s n) fun i b => ?_, fun _ => ?_⟩
      · show _ ∈ x.outcomes ++ x.driven.protocol.refused (s.recount n) ↔ _
        rw [refused_recount]
      · exact (Kept.recount id s n).lengths.trans (lengths_postTask hp)
    · cases hz
  | complete wc =>
    simp only [Driven.step] at hz
    split at hz
    · obtain ⟨s, hc, rfl⟩ := Option.map_eq_some_iff.1 hz
      constructor
      · exact (h.complete (complete_some hc)).kept (.recount id s _) fun _ _ => Iff.rfl
      · exact fun _ => (Kept.recount id s _).lengths.trans (lengths_complete hc)
    · cases hz
  | next =>
    simp only [Driven.step] at hz
    split at hz
    · cases hz
      exact ⟨hquiet rfl h, fun _ => rfl⟩
    · cases hz
      exact ⟨hquiet rfl (h.kept (.letGo id _) fun _ _ => Iff.rfl), fun _ => (Kept.letGo id _).lengths⟩
    · cases hz

/-- What is known of a task in every state of a run from the start. -/
structure Known (id : Nat) (x : Observed) : Prop where
  tracked : x.driven.protocol.Tracked id x.outcomes
  current : x.driven.protocol.Current id

theorem Known.step (h : Known id x) (hk : keeps id x a) (hs : x.step a = some y) : Known id y :=
  ⟨(tracked_step h.tracked h.current hk hs).1, current_step h.current hk hs⟩

theorem Known.run {spawnWorker : Bool} {maxWrPerQp : Nat} {regions : List MemoryRegion} {connected : List String}
    {as : List Driven.Action}
    (hrun : Runs.Run Observed.step (keeps id) (start spawnWorker maxWrPerQp regions connected) as x) : Known id x := by
  refine hrun.invariant (P := Known id) ⟨.start id _ _ _ _, Nat.zero_le _, ?_⟩ fun _ _ _ hx hk hs => hx.step hk hs
  rintro id' ⟨⟩

/-- As long as the task is in the map, its id stands for it. -/
theorem Known.taskOf_eq (h : Known id x) {t : Task} (ht : x.driven.protocol.taskMap id = some t) :
    x.driven.protocol.taskOf id = id := by
  refine Protocol.taskOf_eq (not_le.1 fun hle => ?_) h.current.own
  rw [(h.tracked.issued hle).2.1] at ht
  cases ht

end Observed

end RapidTransfer.Reliable
