/-
The reliable protocol (`rdma_reliable/impl.cpp`) over its RC endpoints. `send` and `receive` leave a task in
`pending_task_`; a driver takes one task at a time, posts its requests, and polls the two completion queues. There are
two drivers, `runStep` and the loop of `runBackgroundWorker`, and `spawn_worker_` decides which of them does the work.

Task ids are 32-bit integers that come round. A task is named here by the number of the call that made it, which stands
for the object that pointers lead to; its id is that number as a 32-bit integer, and what is passed as an id stands for
the last task that was given it (`taskOf`). A request is named by its task and its index there, which stand for the
pointer in `wr_id`. The verbs are arguments of the calls: the first work request that a post refuses, and the
completions that the two polls return. Depths and counts do not wrap, and every endpoint uses its first queue pair, as
the source does.
-/
import RapidTransfer.Context.Core
import RapidTransfer.Memory.Region
import RapidTransfer.Lib.Runs

namespace RapidTransfer.Reliable

inductive RequestType
  | send
  | receive
  deriving DecidableEq, Repr

/-- What the protocol uses of a `Request`; the second segment is always empty. -/
structure Request where
  addr : Nat
  length : Nat
  lkey : UInt32
  status : Status
  deriving DecidableEq, Repr

structure Task where
  type : RequestType
  endpoint : String
  requestList : List Request
  deriving DecidableEq, Repr

/-- `RdmaRCEndPoint`: whether it is connected, and the two depths of its queue pair. -/
structure EndPoint where
  connected : Bool
  wrDepth : RequestType → Int

/-- A work request on a queue pair: the pair, and the request in its `wr_id`. -/
structure WorkRequest where
  type : RequestType
  endpoint : String
  taskId : Nat
  index : Nat
  deriving DecidableEq, Repr

/-- What is read of an `ibv_wc`. -/
structure Completion where
  request : WorkRequest
  success : Bool
  deriving DecidableEq, Repr

structure Protocol where
  spawnWorker : Bool
  maxWrPerQp : Nat
  memoryRegionList : List MemoryRegion
  endpointMap : String → Option EndPoint
  taskMap : Nat → Option Task
  nextTaskId : Nat
  pendingTask : List Nat
  /-- posted, and not returned by a poll yet -/
  outstanding : List WorkRequest
  /-- the local variables of the driver -/
  inflightRequests : Nat
  task : Option (Nat × Task)

namespace Protocol

/-- A protocol whose peers have been connected. -/
def start (spawnWorker : Bool) (maxWrPerQp : Nat) (memoryRegionList : List MemoryRegion) (connected : List String) :
    Protocol :=
  { spawnWorker := spawnWorker, maxWrPerQp := maxWrPerQp, memoryRegionList := memoryRegionList
    endpointMap := fun peer => if peer ∈ connected then some ⟨true, fun _ => 0⟩ else none
    taskMap := fun _ => none, nextTaskId := 0, pendingTask := [], outstanding := []
    inflightRequests := 0, task := none }

/-! ## Tasks -/

/-- The task that an id stands for in `task_map_`: the last one that was given it. -/
def taskOf (s : Protocol) (id : Nat) : Nat :=
  let first := id % 2 ^ 32
  if first < s.nextTaskId then first + (s.nextTaskId - 1 - first) / 2 ^ 32 * 2 ^ 32 else first

/-- What `task_map_` keeps when the next id is given out: the task that had the id before is overwritten. -/
def remaining (s : Protocol) (id : Nat) : Option Task :=
  if id + 2 ^ 32 = s.nextTaskId then none else s.taskMap id

def allocateTask (s : Protocol) (type : RequestType) : Nat × Protocol :=
  (s.nextTaskId, { s with
    nextTaskId := s.nextTaskId + 1
    taskMap := Function.update s.remaining s.nextTaskId (some ⟨type, "", []⟩) })

def freeTask (s : Protocol) (id : Nat) : Protocol := { s with taskMap := Function.update s.taskMap (s.taskOf id) none }

/-- `getOrCreateEndpoint`, with whether a queue pair can be created. -/
def getOrCreateEndpoint (s : Protocol) (peerName : String) (created : Bool) : Option EndPoint × Protocol :=
  if peerName = "" then (none, s)
  else
    match s.endpointMap peerName with
    | some ep => (some ep, s)
    | none =>
      let ep : EndPoint := ⟨false, fun _ => 0⟩
      if created then (some ep, { s with endpointMap := Function.update s.endpointMap peerName (some ep) })
      else (none, s)

/-- The common body of `send` and `receive`: every buffer must be registered and the peer connected. -/
def enqueue (type : RequestType) (s : Protocol) (peerName : String) (bufferList : List Buffer) (created : Bool) :
    Int × Protocol :=
  let lkey := fun buffer : Buffer => (MemoryRegion.key s.memoryRegionList buffer.addr).1
  let (id, s) := s.allocateTask type
  if bufferList.any (fun buffer => lkey buffer == 0) then (-1, s.freeTask id)
  else
    match s.getOrCreateEndpoint peerName created with
    | (none, s) => (-1, s.freeTask id)
    | (some ep, s) =>
      if !ep.connected then (-1, s.freeTask id)
      else
        let requestList := bufferList.map fun buffer => ⟨buffer.addr, buffer.length, lkey buffer, .pending⟩
        (Int.bmod id (2 ^ 32), { s with
          taskMap := Function.update s.taskMap id (some ⟨type, peerName, requestList⟩)
          pendingTask := s.pendingTask ++ [id] })

def send := enqueue .send

def receive := enqueue .receive

/-! ## Posting -/

def modifyTask (s : Protocol) (id : Nat) (f : List Request → List Request) : Protocol :=
  { s with
    taskMap := Function.update s.taskMap id ((s.taskMap id).map fun t => { t with requestList := f t.requestList }) }

/-- The requests from `lo` on and below `hi` are marked `FAILED`. -/
def failRange (lo hi : Nat) (requestList : List Request) : List Request :=
  requestList.mapIdx fun i r => if lo ≤ i ∧ i < hi then { r with status := .failed } else r

/-- `__sync_fetch_and_add` of a depth. -/
def addDepth (s : Protocol) (endpoint : String) (type : RequestType) (n : Int) : Protocol :=
  let add := fun ep : EndPoint => { ep with wrDepth := Function.update ep.wrDepth type (ep.wrDepth type + n) }
  { s with endpointMap := Function.update s.endpointMap endpoint ((s.endpointMap endpoint).map add) }

/-- The first `n` requests of a task are on the queue pair. -/
def enlist (s : Protocol) (type : RequestType) (id : Nat) (t : Task) (n : Nat) : Protocol :=
  let requests := (List.range n).map fun i => WorkRequest.mk type t.endpoint id i
  addDepth { s with outstanding := s.outstanding ++ requests } t.endpoint type n

/-- The common body of `postSendRequest` and `postReceiveRequest`: as many requests as the depth has room for. The ones
from `badWr` on are refused and marked, and count in the result all the same. A negative count is the size of an
array (`none`). -/
def post (type : RequestType) (s : Protocol) (id : Nat) (t : Task) (badWr : Option Nat) : Option (Int × Protocol) :=
  match s.endpointMap t.endpoint with
  | none => none
  | some ep =>
    let wrCount := min (s.maxWrPerQp - ep.wrDepth type) (t.requestList.length : Int)
    if wrCount = 0 then some (0, s)
    else if wrCount < 0 then none
    else
      let posted := min (badWr.getD wrCount.toNat) wrCount.toNat
      some (wrCount, (s.enlist type id t posted).modifyTask id (failRange posted wrCount.toNat))

def postSendRequest := post .send

def postReceiveRequest := post .receive

/-- The post of a task, and the marking of the requests it has not reached. -/
def submit (s : Protocol) (id : Nat) (t : Task) (badWr : Option Nat) : Option (Int × Protocol) :=
  let result :=
    match t.type with
    | .send => s.postSendRequest id t badWr
    | .receive => s.postReceiveRequest id t badWr
  result.map fun r => (r.1, r.2.modifyTask id (failRange (if r.1 < 0 then 0 else r.1.toNat) t.requestList.length))

/-! ## Completions -/

def kPollCount : Nat := 64

/-- One completion: the depth behind `qp_depth`, and the status. A task that was destroyed is `none`. -/
def complete (s : Protocol) (cq : RequestType) (wc : Completion) : Option Protocol :=
  if wc.request ∈ s.outstanding ∧ wc.request.type = cq then
    match s.taskMap wc.request.taskId with
    | none => none
    | some _ =>
      let s := { s with outstanding := s.outstanding.erase wc.request }
      let status := if wc.success then Status.success else .failed
      some ((s.addDepth wc.request.endpoint cq (-1)).modifyTask wc.request.taskId fun requestList =>
        requestList.modify wc.request.index fun r => { r with status := status })
  else none

def completeAll (cq : RequestType) : List Completion → Protocol → Option Protocol
  | [], s => some s
  | wc :: wcs, s => (s.complete cq wc).bind (completeAll cq wcs)

/-- `poll`; the completions are of requests that are outstanding (`none` otherwise), and at most 64. -/
def poll (s : Protocol) (cq : RequestType) (wcs : List Completion) : Option Protocol :=
  if wcs.length ≤ kPollCount then completeAll cq wcs s else none

/-! ## The drivers -/

/-- The front of `pending_task_` is taken, unless there is a task already. An id that was freed gives a null task. -/
def takeTask (s : Protocol) : Protocol :=
  match s.task, s.pendingTask with
  | none, id :: rest =>
    { s with pendingTask := rest, task := (s.taskMap (s.taskOf id)).map fun t => (s.taskOf id, t) }
  | _, _ => s

/-- The task is posted and let go, if there is room for all of its requests. -/
def postTask (s : Protocol) (inflight : Nat) (badWr : Option Nat) : Option (Nat × Protocol) :=
  match s.task with
  | none => some (inflight, s)
  | some (id, t) =>
    if inflight + t.requestList.length ≤ s.maxWrPerQp then
      (s.submit id t badWr).map fun r => (inflight + r.1.toNat, { r.2 with task := none })
    else some (inflight, s)

/-- The body that `runStep` and the worker's loop share. -/
def drive (s : Protocol) (inflight : Nat) (badWr : Option Nat) (sendWc recvWc : List Completion) :
    Option (Nat × Protocol) :=
  (s.takeTask.postTask inflight badWr).bind fun r =>
    (r.2.poll .send sendWc).bind fun s =>
      (s.poll .receive recvWc).map fun s => (r.1 - sendWc.length - recvWc.length, s)

/-- `runStep`: both local variables are new in every call. -/
def runStep (s : Protocol) (badWr : Option Nat) (sendWc recvWc : List Completion) : Option Protocol :=
  if s.spawnWorker then some s
  else (drive { s with task := none } 0 badWr sendWc recvWc).map fun r => { r.2 with task := none }

/-- One round of `runBackgroundWorker`: the local variables outlive it. -/
def runBackgroundWorker (s : Protocol) (badWr : Option Nat) (sendWc recvWc : List Completion) : Option Protocol :=
  if s.spawnWorker then
    (s.drive s.inflightRequests badWr sendWc recvWc).map fun r => { r.2 with inflightRequests := r.1 }
  else none

inductive Event
  | send (peerName : String) (bufferList : List Buffer) (created : Bool)
  | receive (peerName : String) (bufferList : List Buffer) (created : Bool)
  | freeTask (id : Nat)
  | runStep (badWr : Option Nat) (sendWc recvWc : List Completion)
  | worker (badWr : Option Nat) (sendWc recvWc : List Completion)

def step (s : Protocol) : Event → Option Protocol
  | .send peerName bufferList created => some (s.send peerName bufferList created).2
  | .receive peerName bufferList created => some (s.receive peerName bufferList created).2
  | .freeTask id => some (s.freeTask id)
  | .runStep badWr sendWc recvWc => s.runStep badWr sendWc recvWc
  | .worker badWr sendWc recvWc => s.runBackgroundWorker badWr sendWc recvWc

/-! ## Ids -/

/-- Until its id comes round, a task is the one that its id stands for. -/
theorem taskOf_eq {s : Protocol} {id : Nat} (hlt : id < s.nextTaskId) (hle : s.nextTaskId ≤ id + 2 ^ 32) :
    s.taskOf id = id := by
  unfold taskOf
  dsimp only
  split <;> omega

theorem taskOf_mod (s : Protocol) (id : Nat) : s.taskOf id % 2 ^ 32 = id % 2 ^ 32 := by
  unfold taskOf
  dsimp only
  split <;> omega

theorem taskOf_lt {s : Protocol} {id : Nat} (h : id < s.nextTaskId) : s.taskOf id < s.nextTaskId := by
  unfold taskOf
  dsimp only
  split <;> omega

/-- The task that had the next id before. -/
def predecessor (s : Protocol) : Option Nat :=
  if 2 ^ 32 ≤ s.nextTaskId then some (s.nextTaskId - 2 ^ 32) else none

theorem mem_predecessor {s : Protocol} {id : Nat} : id ∈ s.predecessor ↔ id + 2 ^ 32 = s.nextTaskId := by
  unfold predecessor
  split
  · rw [Option.mem_some_iff]
    omega
  · refine iff_of_false (Option.not_mem_none id) ?_
    omega

/-! ## Status and depth -/

/-- The status of a request. -/
def statusAt (s : Protocol) (id i : Nat) : Option Status :=
  ((s.taskMap id).bind fun t => t.requestList[i]?).map (·.status)

/-- The number of requests of a task. -/
def size (s : Protocol) (id : Nat) : Option Nat := (s.taskMap id).map (·.requestList.length)

/-- A depth of a queue pair. -/
def depth (s : Protocol) (endpoint : String) (type : RequestType) : Option Int :=
  (s.endpointMap endpoint).map (·.wrDepth type)

@[simp] theorem statusAt_addDepth (s : Protocol) (endpoint : String) (type : RequestType) (n : Int) (id i : Nat) :
    (s.addDepth endpoint type n).statusAt id i = s.statusAt id i := rfl

@[simp] theorem depth_modifyTask (s : Protocol) (id : Nat) (f : List Request → List Request) (endpoint : String)
    (type : RequestType) : (s.modifyTask id f).depth endpoint type = s.depth endpoint type := rfl

theorem depth_addDepth (s : Protocol) (endpoint endpoint' : String) (type type' : RequestType) (n : Int) :
    (s.addDepth endpoint type n).depth endpoint' type' =
      if endpoint' = endpoint ∧ type' = type then (s.depth endpoint' type').map (· + n)
      else s.depth endpoint' type' := by
  unfold depth addDepth
  by_cases he : endpoint' = endpoint
  · subst he
    by_cases ht : type' = type
    · subst ht
      cases s.endpointMap endpoint' <;> simp
    · cases s.endpointMap endpoint' <;> simp [ht]
  · simp [he]

/-- A task whose requests are mapped: what happens to one of them. -/
theorem statusAt_modifyTask (s : Protocol) (id id' i : Nat) (f : List Request → List Request) :
    (s.modifyTask id f).statusAt id' i =
      if id' = id then ((s.taskMap id).bind fun t => (f t.requestList)[i]?).map (·.status) else s.statusAt id' i := by
  unfold statusAt modifyTask
  by_cases hid : id' = id
  · subst hid
    cases s.taskMap id' <;> simp
  · simp [hid]

theorem statusAt_failRange (s : Protocol) (id id' i lo hi : Nat) :
    (s.modifyTask id (failRange lo hi)).statusAt id' i =
      if id' = id ∧ lo ≤ i ∧ i < hi then (s.statusAt id' i).map fun _ => .failed else s.statusAt id' i := by
  rw [statusAt_modifyTask]
  by_cases hid : id' = id
  · subst hid
    unfold statusAt failRange
    cases s.taskMap id' with
    | none => simp
    | some t =>
      cases hr : t.requestList[i]? with
      | none => simp [List.getElem?_mapIdx, hr]
      | some r => by_cases hin : lo ≤ i ∧ i < hi <;> simp [List.getElem?_mapIdx, hr, hin]
  · simp [hid]

theorem statusAt_modify (s : Protocol) (id id' i j : Nat) (status : Status) :
    (s.modifyTask id fun rs => rs.modify j fun r => { r with status := status }).statusAt id' i =
      if id' = id ∧ i = j then (s.statusAt id' i).map fun _ => status else s.statusAt id' i := by
  rw [statusAt_modifyTask]
  by_cases hid : id' = id
  · subst hid
    unfold statusAt
    cases s.taskMap id' with
    | none => simp
    | some t =>
      by_cases hj : i = j
      · subst hj
        cases hr : t.requestList[i]? <;> simp [hr]
      · simp [hj, Ne.symm hj]
  · simp [hid]

/-! ## What the calls can do -/

/-- What posts and completions leave alone. -/
structure Frame (s s' : Protocol) : Prop where
  spawnWorker : s'.spawnWorker = s.spawnWorker
  maxWrPerQp : s'.maxWrPerQp = s.maxWrPerQp
  nextTaskId : s'.nextTaskId = s.nextTaskId
  pendingTask : s'.pendingTask = s.pendingTask
  task : s'.task = s.task
  size : ∀ id, s'.size id = s.size id

theorem Frame.refl (s : Protocol) : Frame s s := ⟨rfl, rfl, rfl, rfl, rfl, fun _ => rfl⟩

theorem Frame.trans {s s1 s2 : Protocol} (h : Frame s s1) (h' : Frame s1 s2) : Frame s s2 :=
  ⟨h'.spawnWorker.trans h.spawnWorker, h'.maxWrPerQp.trans h.maxWrPerQp, h'.nextTaskId.trans h.nextTaskId,
    h'.pendingTask.trans h.pendingTask, h'.task.trans h.task, fun id => (h'.size id).trans (h.size id)⟩

theorem size_modifyTask (s : Protocol) (id id' : Nat) {f : List Request → List Request}
    (hf : ∀ rs, (f rs).length = rs.length) : (s.modifyTask id f).size id' = s.size id' := by
  unfold modifyTask size
  by_cases hid : id' = id
  · subst hid
    cases s.taskMap id' <;> simp [hf]
  · simp [hid]

theorem length_failRange (lo hi : Nat) (rs : List Request) : (failRange lo hi rs).length = rs.length :=
  List.length_mapIdx

theorem taskMap_modifyTask_of_ne (s : Protocol) {id id' : Nat} (f : List Request → List Request) (h : id' ≠ id) :
    (s.modifyTask id f).taskMap id' = s.taskMap id' :=
  Function.update_of_ne h _ _

/-- The first `n` requests of a task are on the queue pair, and the others have failed. -/
structure Submitted (s : Protocol) (id : Nat) (t : Task) (n : Nat) (s' : Protocol) : Prop extends Frame s s' where
  status : ∀ id' i, s'.statusAt id' i =
    if id' = id ∧ n ≤ i then (s.statusAt id' i).map fun _ => .failed else s.statusAt id' i
  outstanding : s'.outstanding = s.outstanding ++ (List.range n).map fun i => WorkRequest.mk t.type t.endpoint id i
  depth : ∀ endpoint type, s'.depth endpoint type =
    if endpoint = t.endpoint ∧ type = t.type then (s.depth endpoint type).map (· + (n : Int)) else s.depth endpoint type
  others : ∀ id' ≠ id, s'.taskMap id' = s.taskMap id'

theorem submit_eq (s : Protocol) (id : Nat) (t : Task) (badWr : Option Nat) :
    s.submit id t badWr = (s.post t.type id t badWr).map fun r =>
      (r.1, r.2.modifyTask id (failRange (if r.1 < 0 then 0 else r.1.toNat) t.requestList.length)) := by
  unfold submit
  cases t.type <;> rfl

/-- A post takes as many requests as the depth has room for, less those that the verb refuses. -/
theorem post_some {s s' : Protocol} {type : RequestType} {id : Nat} {t : Task} {badWr : Option Nat} {ret : Int}
    (h : s.post type id t badWr = some (ret, s')) :
    ∃ d n, s.depth t.endpoint type = some d ∧ 0 ≤ ret ∧ ret = min (s.maxWrPerQp - d) (t.requestList.length : Int) ∧
      n ≤ ret.toNat ∧ (badWr = none → n = ret.toNat) ∧
      ((ret = 0 ∧ s' = s) ∨ s' = (s.enlist type id t n).modifyTask id (failRange n ret.toNat)) := by
  unfold post at h
  cases hep : s.endpointMap t.endpoint with
  | none => rw [hep] at h; cases h
  | some ep =>
    rw [hep] at h
    have hdepth : s.depth t.endpoint type = some (ep.wrDepth type) := by simp [depth, hep]
    simp only at h
    split at h
    · rename_i hzero
      cases h
      exact ⟨_, 0, hdepth, le_refl _, hzero.symm, le_refl _, fun _ => rfl, .inl ⟨rfl, rfl⟩⟩
    · split at h
      · cases h
      · rename_i hneg
        cases h
        exact ⟨_, _, hdepth, not_lt.1 hneg, rfl, min_le_right _ _, fun hb => by simp [hb], .inr rfl⟩

/-- What a post does to the state, whether or not the task is still in the map. -/
theorem submit_cases {s s' : Protocol} {id : Nat} {t : Task} {badWr : Option Nat} {ret : Int}
    (h : s.submit id t badWr = some (ret, s')) :
    (∃ m, s' = s.modifyTask id (failRange m t.requestList.length)) ∨
    ∃ n k m, s' = ((s.enlist t.type id t n).modifyTask id (failRange n k)).modifyTask id
      (failRange m t.requestList.length) := by
  rw [submit_eq] at h
  obtain ⟨⟨ret', s1⟩, hpost, h⟩ := Option.map_eq_some_iff.1 h
  cases h
  obtain ⟨d, n, -, -, -, -, -, ⟨-, rfl⟩ | rfl⟩ := post_some hpost
  · exact .inl ⟨_, rfl⟩
  · exact .inr ⟨n, _, _, rfl⟩

/-- The requests from `n` on are marked by the endpoint up to `m` and by the driver after that. -/
theorem statusAt_failRange_failRange (s : Protocol) (id id' i : Nat) {n m len : Nat} (hn : n ≤ m) (hm : m ≤ len) :
    ((s.modifyTask id (failRange n m)).modifyTask id (failRange m len)).statusAt id' i =
      if id' = id ∧ n ≤ i ∧ i < len then (s.statusAt id' i).map fun _ => .failed else s.statusAt id' i := by
  rw [statusAt_failRange, statusAt_failRange]
  by_cases hid : id' = id
  · by_cases h1 : m ≤ i
    · have h2 : ¬ i < m := not_lt.2 h1
      simp [hid, h1, h2, hn.trans h1]
    · have h2 : i < m := not_le.1 h1
      simp [hid, h1, h2, lt_of_lt_of_le h2 hm]
  · simp [hid]

theorem size_of_some {s : Protocol} {id : Nat} {t : Task} (ht : s.taskMap id = some t) :
    ∀ n ∈ s.size id, n = t.requestList.length := by
  intro n hn
  rw [size, ht] at hn
  exact (Option.mem_some_iff.1 hn).symm

theorem exists_of_size {s : Protocol} {id n : Nat} (h : s.size id = some n) :
    ∃ t, s.taskMap id = some t ∧ t.requestList.length = n :=
  Option.map_eq_some_iff.1 h

theorem exists_size_of_statusAt {s : Protocol} {id i : Nat} {st : Status} (h : s.statusAt id i = some st) :
    ∃ n, s.size id = some n := by
  obtain ⟨r, hr, -⟩ := Option.map_eq_some_iff.1 h
  obtain ⟨t, ht, -⟩ := Option.bind_eq_some_iff.1 hr
  exact ⟨_, congrArg (Option.map _) ht⟩

/-- Beyond the requests of a task there is no status. -/
theorem statusAt_eq_none {s : Protocol} {id i : Nat} (hi : ∀ n ∈ s.size id, n ≤ i) : s.statusAt id i = none := by
  unfold statusAt
  cases ht : s.taskMap id with
  | none => rfl
  | some t => simp [hi t.requestList.length (by simp [size, ht])]

theorem statusAt_beyond {s : Protocol} {id i : Nat} {t : Task} (ht : s.taskMap id = some t)
    (hi : t.requestList.length ≤ i) : s.statusAt id i = none :=
  statusAt_eq_none fun n hn => (size_of_some ht n hn).trans_le hi

/-- The task in the hands of the driver may be gone from the map; if it is there, it has all its requests. -/
theorem submit_some {s s' : Protocol} {id : Nat} {t : Task} {badWr : Option Nat} {ret : Int}
    (ht : ∀ n ∈ s.size id, n = t.requestList.length) (h : s.submit id t badWr = some (ret, s')) :
    ∃ d n, s.depth t.endpoint t.type = some d ∧ 0 ≤ ret ∧ ret = min (s.maxWrPerQp - d) (t.requestList.length : Int) ∧
      n ≤ ret.toNat ∧ (badWr = none → n = ret.toNat) ∧ Submitted s id t n s' := by
  rw [submit_eq] at h
  obtain ⟨⟨ret', s1⟩, hpost, h⟩ := Option.map_eq_some_iff.1 h
  cases h
  obtain ⟨d, n, hdepth, hpos, hret, hn, hall, hs⟩ := post_some hpost
  have hlen : ret'.toNat ≤ t.requestList.length := by omega
  refine ⟨d, n, hdepth, hpos, hret, hn, hall, ?_⟩
  have hdrop : ∀ (x : Option Status) (id' i : Nat), (id' = id → t.requestList.length ≤ i → x = none) →
      (if id' = id ∧ n ≤ i ∧ i < t.requestList.length then x.map fun _ => Status.failed else x) =
        if id' = id ∧ n ≤ i then x.map fun _ => Status.failed else x := by
    intro x id' i hx
    by_cases hi : i < t.requestList.length
    · simp [hi]
    · by_cases hid : id' = id
      · simp [hx hid (not_lt.1 hi)]
      · simp [hid]
  have hnone : ∀ {id' i : Nat}, id' = id → t.requestList.length ≤ i → s.statusAt id' i = none := by
    rintro id' i rfl hi
    exact statusAt_eq_none fun n hn => (ht n hn).trans_le hi
  simp only [if_neg (not_lt.2 hpos)]
  rcases hs with ⟨rfl, rfl⟩ | rfl
  · -- nothing is posted
    obtain rfl : n = 0 := Nat.le_zero.1 hn
    refine ⟨⟨rfl, rfl, rfl, rfl, rfl, fun id' => size_modifyTask _ id id' (length_failRange _ _)⟩, fun id' i => ?_,
      by simp; rfl,
      fun endpoint type => ?_, fun id' hid => taskMap_modifyTask_of_ne _ _ hid⟩
    · rw [← hdrop _ id' i hnone, statusAt_failRange]
      rfl
    · rw [depth_modifyTask]
      cases s1.depth endpoint type <;> simp
  · refine ⟨⟨rfl, rfl, rfl, rfl, rfl, fun id' => ?_⟩, fun id' i => ?_, rfl, fun endpoint type => ?_, fun id' hid => ?_⟩
    · rw [size_modifyTask _ _ _ (length_failRange _ _), size_modifyTask _ _ _ (length_failRange _ _)]
      rfl
    · rw [← hdrop _ id' i hnone]
      exact statusAt_failRange_failRange (s.enlist t.type id t n) id id' i hn hlen
    · rw [depth_modifyTask, depth_modifyTask]
      exact depth_addDepth _ _ _ _ _ _
    · rw [taskMap_modifyTask_of_ne _ _ hid, taskMap_modifyTask_of_ne _ _ hid]
      rfl

/-- A request is off its queue pair and has its final status. -/
structure Completed (s : Protocol) (wc : Completion) (s' : Protocol) : Prop extends Frame s s' where
  mem : wc.request ∈ s.outstanding
  status : ∀ id i, s'.statusAt id i = if id = wc.request.taskId ∧ i = wc.request.index then
    (s.statusAt id i).map fun _ => if wc.success then .success else .failed else s.statusAt id i
  outstanding : s'.outstanding = s.outstanding.erase wc.request
  depth : ∀ endpoint type, s'.depth endpoint type =
    if endpoint = wc.request.endpoint ∧ type = wc.request.type then (s.depth endpoint type).map (· + -1)
    else s.depth endpoint type
  others : ∀ id ≠ wc.request.taskId, s'.taskMap id = s.taskMap id

theorem complete_some {s s' : Protocol} {cq : RequestType} {wc : Completion} (h : s.complete cq wc = some s') :
    Completed s wc s' := by
  unfold complete at h
  split at h
  · rename_i hmem
    obtain ⟨hmem, rfl⟩ := hmem
    split at h
    · cases h
    · cases h
      refine ⟨⟨rfl, rfl, rfl, rfl, rfl, fun id => ?_⟩, hmem, fun id i => ?_, rfl, fun endpoint type => ?_,
        fun id hid => ?_⟩
      · rw [size_modifyTask _ _ _ fun rs => List.length_modify ..]
        rfl
      · rw [statusAt_modify, statusAt_addDepth]
        rfl
      · rw [depth_modifyTask, depth_addDepth]
        rfl
      · rw [taskMap_modifyTask_of_ne _ _ hid]
        rfl
  · cases h

/-- What completions keep, polls keep. -/
theorem poll_rule {P : Protocol → Prop} {cq : RequestType} {wcs : List Completion} {s s' : Protocol}
    (hdone : ∀ s wc s', P s → wc ∈ wcs → Completed s wc s' → P s') (h0 : P s) (h : s.poll cq wcs = some s') : P s' := by
  unfold poll at h
  split at h
  · clear * - hdone h0 h
    induction wcs generalizing s with
    | nil => cases h; exact h0
    | cons wc wcs ih =>
      obtain ⟨s1, h1, h⟩ := Option.bind_eq_some_iff.1 h
      have hs1 := hdone s wc s1 h0 List.mem_cons_self (complete_some h1)
      exact ih (fun s wc s' hs hwc => hdone s wc s' hs (List.mem_cons_of_mem _ hwc)) hs1 h
  · cases h

theorem poll_frame {s s' : Protocol} {cq : RequestType} {wcs : List Completion} (h : s.poll cq wcs = some s') :
    Frame s s' :=
  poll_rule (P := Frame s) (fun _ _ _ h1 _ h2 => h1.trans h2.toFrame) (.refl s) h

/-- The parts of a call of a driver. -/
theorem drive_some {s s' : Protocol} {inflight n : Nat} {badWr : Option Nat} {sendWc recvWc : List Completion}
    (h : s.drive inflight badWr sendWc recvWc = some (n, s')) :
    ∃ m s1 s2, s.takeTask.postTask inflight badWr = some (m, s1) ∧ s1.poll .send sendWc = some s2 ∧
      s2.poll .receive recvWc = some s' ∧ n = m - sendWc.length - recvWc.length := by
  obtain ⟨⟨m, s1⟩, hpost, h⟩ := Option.bind_eq_some_iff.1 h
  obtain ⟨s2, hsend, h⟩ := Option.bind_eq_some_iff.1 h
  obtain ⟨s3, hrecv, h⟩ := Option.map_eq_some_iff.1 h
  cases h
  exact ⟨m, s1, s2, hpost, hsend, hrecv, rfl⟩

/-- A task that is kept, or posted and let go. -/
theorem postTask_some {s s' : Protocol} {inflight n : Nat} {badWr : Option Nat}
    (h : s.postTask inflight badWr = some (n, s')) :
    (s.task = none ∧ n = inflight ∧ s' = s) ∨
    ∃ id t, s.task = some (id, t) ∧
      ((s.maxWrPerQp < inflight + t.requestList.length ∧ n = inflight ∧ s' = s) ∨
      ∃ ret s1, inflight + t.requestList.length ≤ s.maxWrPerQp ∧ s.submit id t badWr = some (ret, s1) ∧
        n = inflight + ret.toNat ∧ s' = { s1 with task := none }) := by
  unfold postTask at h
  split at h
  · rename_i hnone
    cases h
    exact .inl ⟨hnone, rfl, rfl⟩
  · rename_i id t htask
    refine .inr ⟨id, t, htask, ?_⟩
    split at h
    · rename_i hfit
      obtain ⟨⟨ret, s1⟩, hsub, h⟩ := Option.map_eq_some_iff.1 h
      cases h
      exact .inr ⟨ret, s1, hfit, hsub, rfl, rfl⟩
    · rename_i hfit
      cases h
      exact .inl ⟨not_le.1 hfit, rfl, rfl⟩

theorem takeTask_cases (s : Protocol) :
    s.takeTask = s ∨ ∃ id rest, s.task = none ∧ s.pendingTask = id :: rest ∧
      s.takeTask =
        { s with pendingTask := rest, task := (s.taskMap (s.taskOf id)).map fun t => (s.taskOf id, t) } := by
  unfold takeTask
  split
  · rename_i id rest htask hpending
    exact .inr ⟨id, rest, htask, hpending, rfl⟩
  · exact .inl rfl

/-- Only the places where tasks wait change. -/
theorem takeTask_eq (s : Protocol) :
    s.takeTask = { s with pendingTask := s.takeTask.pendingTask, task := s.takeTask.task } := by
  obtain he | ⟨id, rest, -, -, he⟩ := s.takeTask_cases <;> rw [he]

theorem takeTask_statusAt (s : Protocol) (id i : Nat) : s.takeTask.statusAt id i = s.statusAt id i := by
  rw [takeTask_eq]; rfl

theorem takeTask_depth (s : Protocol) (endpoint : String) (type : RequestType) :
    s.takeTask.depth endpoint type = s.depth endpoint type := by
  rw [takeTask_eq]; rfl

theorem takeTask_outstanding (s : Protocol) : s.takeTask.outstanding = s.outstanding := by
  rw [takeTask_eq]

theorem takeTask_maxWrPerQp (s : Protocol) : s.takeTask.maxWrPerQp = s.maxWrPerQp := by
  rw [takeTask_eq]

/-- A call of `send` or `receive`: an id is used up, and there is a task with it or not. -/
structure Enqueued (s : Protocol) (bufferList : List Buffer) (s' : Protocol) : Prop where
  spawnWorker : s'.spawnWorker = s.spawnWorker
  maxWrPerQp : s'.maxWrPerQp = s.maxWrPerQp
  nextTaskId : s'.nextTaskId = s.nextTaskId + 1
  outstanding : s'.outstanding = s.outstanding
  inflightRequests : s'.inflightRequests = s.inflightRequests
  task : s'.task = s.task
  depth : ∀ endpoint type, s'.depth endpoint type = s.depth endpoint type ∨
    (s.depth endpoint type = none ∧ s'.depth endpoint type = some 0)
  tasks : (s'.pendingTask = s.pendingTask ∧ s'.taskMap = Function.update s.remaining s.nextTaskId none) ∨
    ∃ t, s'.pendingTask = s.pendingTask ++ [s.nextTaskId] ∧
      s'.taskMap = Function.update s.remaining s.nextTaskId (some t) ∧ t.requestList.length = bufferList.length ∧
      ∀ r ∈ t.requestList, r.status = .pending

namespace Enqueued

variable {s s' : Protocol} {bufferList : List Buffer}

theorem taskMap_of_ne (h : Enqueued s bufferList s') {id : Nat} (hid : id ≠ s.nextTaskId) :
    s'.taskMap id = s.remaining id := by
  rcases h.tasks with ⟨-, ht⟩ | ⟨t, -, ht, -⟩ <;> rw [ht, Function.update_of_ne hid]

/-- The other tasks stay, unless they have the id of the new one. -/
theorem others (h : Enqueued s bufferList s') {id : Nat} (hid : id ≠ s.nextTaskId)
    (hold : id + 2 ^ 32 ≠ s.nextTaskId) : s'.taskMap id = s.taskMap id := by
  rw [h.taskMap_of_ne hid]
  exact if_neg hold

/-- No task comes back, and one that has the id of the new one is gone. -/
theorem others_of_some (h : Enqueued s bufferList s') {id : Nat} (hid : id ≠ s.nextTaskId) {t : Task}
    (ht : s'.taskMap id = some t) : s.taskMap id = some t ∧ id + 2 ^ 32 ≠ s.nextTaskId := by
  rw [h.taskMap_of_ne hid] at ht
  unfold remaining at ht
  split at ht
  · cases ht
  · rename_i hne
    exact ⟨ht, hne⟩

theorem statusAt_others (h : Enqueued s bufferList s') {id : Nat} (hid : id ≠ s.nextTaskId)
    (hold : id + 2 ^ 32 ≠ s.nextTaskId) (i : Nat) : s'.statusAt id i = s.statusAt id i := by
  unfold statusAt
  rw [h.others hid hold]

theorem statusAt_of_some (h : Enqueued s bufferList s') {id : Nat} (hid : id ≠ s.nextTaskId) {i : Nat} {st : Status}
    (hst : s'.statusAt id i = some st) : s.statusAt id i = some st := by
  unfold statusAt at hst ⊢
  rw [h.taskMap_of_ne hid] at hst
  unfold remaining at hst
  split at hst
  · cases hst
  · exact hst

/-- The new task, if there is one, is pending. -/
theorem statusAt_new (h : Enqueued s bufferList s') {i : Nat} {status : Status}
    (hst : s'.statusAt s.nextTaskId i = some status) : status = .pending := by
  unfold statusAt at hst
  rcases h.tasks with ⟨-, ht⟩ | ⟨t, -, ht, -, hpending⟩
  · rw [ht, Function.update_self] at hst
    cases hst
  · rw [ht, Function.update_self, Option.bind_some] at hst
    obtain ⟨r, hr, rfl⟩ := Option.map_eq_some_iff.1 hst
    exact hpending r (List.mem_of_getElem? hr)

/-- What is in the queue: the old tasks, and the new one. -/
theorem mem_pendingTask (h : Enqueued s bufferList s') {id : Nat} (hid : id ∈ s'.pendingTask) :
    id ∈ s.pendingTask ∨
    (id = s.nextTaskId ∧ ∃ t, s'.taskMap id = some t ∧ t.requestList.length = bufferList.length) := by
  rcases h.tasks with ⟨hp, -⟩ | ⟨t, hp, ht, hlen, -⟩
  · exact .inl (hp ▸ hid)
  · rw [hp, List.mem_append, List.mem_singleton] at hid
    rcases hid with hid | rfl
    · exact .inl hid
    · exact .inr ⟨rfl, t, by rw [ht, Function.update_self], hlen⟩

end Enqueued

theorem getOrCreateEndpoint_cases (s : Protocol) (peerName : String) (created : Bool) :
    (s.getOrCreateEndpoint peerName created).2 = s ∨
    (s.endpointMap peerName = none ∧ (s.getOrCreateEndpoint peerName created).2 =
      { s with endpointMap := Function.update s.endpointMap peerName (some ⟨false, fun _ => 0⟩) }) := by
  unfold getOrCreateEndpoint
  split
  · exact .inl rfl
  · split
    · exact .inl rfl
    · rename_i hnone
      simp only
      split
      · exact .inr ⟨hnone, rfl⟩
      · exact .inl rfl

theorem enqueued (type : RequestType) (s : Protocol) (peerName : String) (bufferList : List Buffer) (created : Bool) :
    Enqueued s bufferList (s.enqueue type peerName bufferList created).2 := by
  have hnone : ∀ t x, Function.update (Function.update s.remaining s.nextTaskId (some t)) s.nextTaskId x =
      Function.update s.remaining s.nextTaskId x := fun t x => Function.update_idem _ _ _
  -- the id of a call that is refused is that of its own task
  have hfreed : ∀ x : Protocol, x.nextTaskId = s.nextTaskId + 1 →
      ∀ t, x.taskMap = Function.update s.remaining s.nextTaskId t →
      (x.freeTask s.nextTaskId).taskMap = Function.update s.remaining s.nextTaskId none := by
    intro x hx t ht
    rw [freeTask, taskOf_eq (by omega) (by omega), ht]
    exact Function.update_idem _ _ _
  -- the endpoint that is looked up may be new
  have hep := (s.allocateTask type).2.getOrCreateEndpoint_cases peerName created
  unfold enqueue
  simp only
  split
  · exact ⟨rfl, rfl, rfl, rfl, rfl, rfl, fun _ _ => .inl rfl, .inl ⟨rfl, hfreed _ rfl _ rfl⟩⟩
  · have hdepth : ∀ x : Protocol, x = ((s.allocateTask type).2.getOrCreateEndpoint peerName created).2 →
        ∀ endpoint ty, x.depth endpoint ty = s.depth endpoint ty ∨
          (s.depth endpoint ty = none ∧ x.depth endpoint ty = some 0) := by
      rintro x rfl endpoint ty
      rcases hep with he | ⟨hn, he⟩
      · rw [he]; exact .inl rfl
      · rw [he]
        by_cases hp : endpoint = peerName
        · subst hp
          exact .inr ⟨by rw [depth]; exact congrArg (Option.map _) hn, by simp [depth]⟩
        · exact .inl (by simp [depth, hp, allocateTask])
    have hrest : ∀ x : Protocol, x = ((s.allocateTask type).2.getOrCreateEndpoint peerName created).2 →
        x = { (s.allocateTask type).2 with endpointMap := x.endpointMap } := by
      rintro x rfl
      rcases hep with he | ⟨-, he⟩ <;> rw [he]
    split
    · rename_i x hx
      have hx' := congrArg Prod.snd hx
      rw [hrest x hx'.symm]
      refine ⟨rfl, rfl, rfl, rfl, rfl, rfl, ?_, .inl ⟨rfl, hfreed _ rfl _ rfl⟩⟩
      exact hdepth x hx'.symm
    · rename_i ep x hx
      have hx' := congrArg Prod.snd hx
      split
      · rw [hrest x hx'.symm]
        refine ⟨rfl, rfl, rfl, rfl, rfl, rfl, ?_, .inl ⟨rfl, hfreed _ rfl _ rfl⟩⟩
        exact hdepth x hx'.symm
      · rw [hrest x hx'.symm]
        refine ⟨rfl, rfl, rfl, rfl, rfl, rfl, ?_, .inr ⟨_, rfl, hnone _ _, List.length_map _, ?_⟩⟩
        · exact hdepth x hx'.symm
        · rintro r hr
          obtain ⟨buffer, -, rfl⟩ := List.mem_map.1 hr
          rfl

end Protocol

end RapidTransfer.Reliable
