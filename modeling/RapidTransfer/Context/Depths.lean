/-
The depth counters of the queue pairs. A post raises the counter of its work queue by the number of requests it hands
to the verb and lowers it again by one for each request from `bad_wr` on; a polled completion lowers the counter that
its request points to, whichever work queue the completion comes from. `EndpointStore` leaves the pointers out: here
requests are objects that hold one, and the NIC lists what it has taken with the work queue it has taken it for.

The pointer is one per request, and a post sets it without a look at where the request is. A request that is posted on a
second work queue while the first still has it takes its pointer along, and both counters go wrong (`depth_misled`). A
list so long that its size is negative as an `int` makes the number of requests negative. Neither is what the callers
do: they post lists of at most four requests, fresh from `RequestCache`. For such posts the counters are exact
(`depth_exact`). The status of a request is FAILED once a verb has refused it, and stays so until `RequestCache` hands
the request out anew, also if a later post queues it.
-/
import RapidTransfer.Context.Core
import RapidTransfer.Lib.Runs

namespace RapidTransfer

open Runs

/-- The two work queues of a queue pair. -/
inductive Direction where
  | send
  | receive
  deriving DecidableEq, Repr

/-- A work queue; `send_wr_depth_list_` and `recv_wr_depth_list_` have one counter for each. -/
structure WorkQueue where
  direction : Direction
  qpIndex : Nat
  deriving DecidableEq, Repr

/-- The members of a `Request` that posts and polls read and write, with the values `Request()` gives them. -/
structure RequestObject where
  qpDepth : Option WorkQueue := none
  status : Status := .unknown
  deriving DecidableEq, Repr

/-- `RdmaUDEndPointStore` with the requests in memory and the NIC: `queued` lists the requests it has taken and not
completed. -/
structure DepthStore where
  maxWrDepth : Int
  numQp : Nat
  wrDepth : WorkQueue → Int
  requests : Nat → RequestObject
  queued : List (WorkQueue × Nat)

/-- A 64-bit size as an `int`. -/
def intOfSize (n : Nat) : Int := Int.bmod n (2 ^ 32)

theorem intOfSize_of_lt {n : Nat} (h : n < 2 ^ 31) : intOfSize n = n := by
  unfold intOfSize Int.bmod
  dsimp only
  split <;> omega

theorem intOfSize_le (n : Nat) : intOfSize n ≤ n := by
  unfold intOfSize Int.bmod
  dsimp only
  split <;> omega

namespace DepthStore

/-! ## The source -/

/-- `construct`; `createQp` says for a queue pair whether the NIC gives one of this capacity. -/
def construct (createQp : Nat → Nat → Bool) (numQpPerEndpoint maxWrPerQp : Nat) : Option DepthStore :=
  if (List.range numQpPerEndpoint).all fun i => createQp i (maxWrPerQp % 2 ^ 32) then
    some
      { maxWrDepth := intOfSize maxWrPerQp
        numQp := numQpPerEndpoint
        wrDepth := fun _ => 0
        requests := fun _ => {}
        queued := [] }
  else none

/-- How many requests of a list a post hands to the verb. -/
def wrCount (st : DepthStore) (q : WorkQueue) (size : Nat) : Int :=
  min (st.maxWrDepth - st.wrDepth q) (intOfSize size)

/-- The loop that fills the work requests. -/
def prepare (st : DepthStore) (q : WorkQueue) : List Nat → DepthStore
  | [] => st
  | r :: rest =>
    prepare { st with requests := Function.update st.requests r { st.requests r with qpDepth := some q } } q rest

/-- `ibv_post_send` and `ibv_post_recv`: the first `accepted` requests are queued. -/
def verb (st : DepthStore) (q : WorkQueue) (accepted : Nat) (handed : List Nat) : DepthStore :=
  { st with queued := st.queued ++ (handed.take accepted).map (q, ·) }

/-- The loop over the requests from `bad_wr` on. -/
def fail (st : DepthStore) (q : WorkQueue) : List Nat → DepthStore
  | [] => st
  | r :: rest =>
    fail
      { st with
        requests := Function.update st.requests r { st.requests r with status := .failed }
        wrDepth := Function.update st.wrDepth q (st.wrDepth q - 1) } q rest

/-- `postSendRequest` and `postReceiveRequest`. There is no queue pair beyond the last, and no array of a negative
length. -/
def post (st : DepthStore) (q : WorkQueue) (requestList : List Nat) (accepted : Nat) : Option (Int × DepthStore) :=
  if st.numQp ≤ q.qpIndex then none
  else
    let wrCount := st.wrCount q requestList.length
    if wrCount = 0 then some (0, st)
    else if wrCount < 0 then none
    else
      let handed := requestList.take wrCount.toNat
      let st := st.prepare q handed
      let st := { st with wrDepth := Function.update st.wrDepth q (st.wrDepth q + wrCount) }
      -- the verb fails when it does not take all of them, and `bad_wr` is the first it does not take
      let st := (st.verb q accepted handed).fail q (handed.drop accepted)
      some (wrCount, st)

def postSendRequest (st : DepthStore) (requestList : List Nat) (qpIndex accepted : Nat) : Option (Int × DepthStore) :=
  st.post ⟨.send, qpIndex⟩ requestList accepted

def postReceiveRequest (st : DepthStore) (requestList : List Nat) (qpIndex accepted : Nat) :
    Option (Int × DepthStore) :=
  st.post ⟨.receive, qpIndex⟩ requestList accepted

/-- What `pollCompletedPackets` does to the counters for a completion of request `r` on work queue `q`. -/
def poll (st : DepthStore) (q : WorkQueue) (r : Nat) : Option DepthStore :=
  (st.requests r).qpDepth.map fun p =>
    { st with
      wrDepth := Function.update st.wrDepth p (st.wrDepth p - 1)
      queued := st.queued.erase (q, r) }

/-- `RequestCache::allocate` hands out a request, and its caller constructs it anew. -/
def allocate (st : DepthStore) (r : Nat) : DepthStore :=
  { st with requests := Function.update st.requests r {} }

theorem construct_requests {createQp : Nat → Nat → Bool} {numQpPerEndpoint maxWrPerQp : Nat} {st : DepthStore}
    (h : construct createQp numQpPerEndpoint maxWrPerQp = some st) : st.requests = fun _ => {} := by
  unfold construct at h
  split at h
  · rw [← Option.some.inj h]
  · cases h

/-! ## What a post does -/

variable {st st' : DepthStore} {q : WorkQueue} {r : Nat}

theorem prepare_eq (st : DepthStore) (q : WorkQueue) (handed : List Nat) :
    st.prepare q handed =
      { st with requests := fun r =>
          if r ∈ handed then { st.requests r with qpDepth := some q } else st.requests r } := by
  induction handed generalizing st with
  | nil => rfl
  | cons r rest ih =>
    rw [prepare, ih]
    congr 1
    funext x
    by_cases hx : x = r
    · subst hx
      simp
    · simp [hx]

theorem fail_eq (st : DepthStore) (q : WorkQueue) (rest : List Nat) :
    st.fail q rest =
      { st with
        requests := fun r => if r ∈ rest then { st.requests r with status := .failed } else st.requests r
        wrDepth := Function.update st.wrDepth q (st.wrDepth q - rest.length) } := by
  induction rest generalizing st with
  | nil => simp [fail]
  | cons r rest ih =>
    rw [fail, ih]
    congr 1
    · simp only [Function.update_self, Function.update_idem, List.length_cons]
      congr 1
      push_cast
      ring
    · funext x
      by_cases hx : x = r
      · subst hx
        simp
      · simp [hx]

/-- A post that hands requests to the verb. -/
structure Posted (st : DepthStore) (q : WorkQueue) (handed : List Nat) (accepted : Nat) (st' : DepthStore) : Prop where
  maxWrDepth : st'.maxWrDepth = st.maxWrDepth
  numQp : st'.numQp = st.numQp
  wrDepth : st'.wrDepth = Function.update st.wrDepth q (st.wrDepth q + (handed.take accepted).length)
  queued : st'.queued = st.queued ++ (handed.take accepted).map (q, ·)
  qpDepth : ∀ r, (st'.requests r).qpDepth = if r ∈ handed then some q else (st.requests r).qpDepth
  status : ∀ r, (st'.requests r).status = if r ∈ handed.drop accepted then .failed else (st.requests r).status

/-- The post after it is known how many requests it hands over. -/
theorem posted_of_handed (st : DepthStore) (q : WorkQueue) (handed : List Nat) (accepted : Nat) {n : Int}
    (hn : (handed.length : Int) = n) :
    Posted st q handed accepted
      ((({ st.prepare q handed with
            wrDepth := Function.update (st.prepare q handed).wrDepth q ((st.prepare q handed).wrDepth q + n) }
          : DepthStore).verb q accepted handed).fail q (handed.drop accepted)) := by
  rw [fail_eq, prepare_eq]
  refine ⟨rfl, rfl, ?_, rfl, fun r => ?_, fun r => ?_⟩
  · have hlen : (handed.take accepted).length + (handed.drop accepted).length = handed.length := by
      rw [← List.length_append, List.take_append_drop]
    simp only [verb, Function.update_self, Function.update_idem]
    congr 1
    omega
  · simp only [verb]
    split <;> split <;> rfl
  · simp only [verb]
    split <;> split <;> rfl

/-- A post hands nothing over and changes nothing, or hands over the first requests of its list. -/
theorem post_cases {requestList : List Nat} {accepted : Nat} {ret : Int}
    (h : st.post q requestList accepted = some (ret, st')) :
    q.qpIndex < st.numQp ∧ ret = st.wrCount q requestList.length ∧
      ((ret = 0 ∧ st' = st) ∨
        (0 < ret ∧ ((requestList.take ret.toNat).length : Int) = ret ∧
          Posted st q (requestList.take ret.toNat) accepted st')) := by
  unfold post at h
  split at h
  · cases h
  · rename_i hq
    refine ⟨by omega, ?_⟩
    dsimp only at h
    split at h
    · rename_i h0
      cases h
      exact ⟨h0.symm, .inl ⟨rfl, rfl⟩⟩
    · split at h
      · cases h
      · obtain ⟨rfl, rfl⟩ := Prod.mk.inj (Option.some.inj h)
        have hle : st.wrCount q requestList.length ≤ requestList.length :=
          le_trans (min_le_right _ _) (intOfSize_le _)
        have hlen : ((requestList.take (st.wrCount q requestList.length).toNat).length : Int) =
            st.wrCount q requestList.length := by
          rw [List.length_take]
          omega
        exact ⟨rfl, .inr ⟨by omega, hlen, posted_of_handed st q _ accepted hlen⟩⟩

/-- The counters of the send queues are those of `EndpointStore`, which has no pointers. -/
theorem postSendRequest_agrees {store store' : EndpointStore} {rs : List Request} {requestList : List Nat}
    {qpIndex accepted : Nat} {ret ret' : Int} (hlen : rs.length = requestList.length) (hsize : rs.length < 2 ^ 31)
    (hmax : store.maxWrDepth = st.maxWrDepth) (hdepth : ∀ i, store.sendWrDepth i = st.wrDepth ⟨.send, i⟩)
    (h : st.postSendRequest requestList qpIndex accepted = some (ret, st'))
    (h' : store.post rs qpIndex accepted = some (ret', store')) :
    ret' = ret ∧ ∀ i, store'.sendWrDepth i = st'.wrDepth ⟨.send, i⟩ := by
  have hcount : min (store.maxWrDepth - store.sendWrDepth qpIndex) (rs.length : Int) =
      st.wrCount ⟨.send, qpIndex⟩ requestList.length := by
    rw [wrCount, ← hlen, intOfSize_of_lt hsize, hmax, hdepth]
  obtain ⟨-, hret, hcase⟩ := post_cases h
  simp only [EndpointStore.post, hcount] at h'
  rw [← hret] at h'
  rcases hcase with ⟨h0, rfl⟩ | ⟨hpos, htake, hp⟩
  · rw [if_pos h0] at h'
    cases h'
    exact ⟨h0.symm, hdepth⟩
  · rw [if_neg (by omega), if_neg (by omega)] at h'
    obtain ⟨rfl, rfl⟩ := Prod.mk.inj (Option.some.inj h')
    refine ⟨rfl, fun i => ?_⟩
    rw [hp.wrDepth]
    by_cases hi : i = qpIndex
    · subst hi
      have hmin : min accepted ret.toNat = ((requestList.take ret.toNat).take accepted).length := by
        rw [List.length_take]
        omega
      simp only [Function.update_self, hdepth, hmin]
    · rw [Function.update_of_ne (by simpa using hi)]
      simp only [Function.update_of_ne hi, hdepth]

/-! ## Runs -/

/-- What happens to a store. -/
inductive DepthOp where
  | post (q : WorkQueue) (requestList : List Nat) (accepted : Nat)
  | poll (q : WorkQueue) (r : Nat)
  | allocate (r : Nat)

def step (st : DepthStore) : DepthOp → Option DepthStore
  | .post q requestList accepted => (st.post q requestList accepted).map (·.2)
  | .poll q r => st.poll q r
  | .allocate r => some (st.allocate r)

/-- The NIC completes what it has queued, each request once. -/
def Completes (st : DepthStore) : DepthOp → Prop
  | .poll q r => (q, r) ∈ st.queued
  | _ => True

/-- Besides, the requests handed to a verb are not queued on another work queue, and a request that is queued is not
handed out again. -/
def Owned (st : DepthStore) : DepthOp → Prop
  | .post q requestList _ =>
    ∀ p ∈ st.queued, p.2 ∈ requestList.take (st.wrCount q requestList.length).toNat → p.1 = q
  | .poll q r => (q, r) ∈ st.queued
  | .allocate r => ∀ p ∈ st.queued, p.2 ≠ r

instance (st : DepthStore) (op : DepthOp) : Decidable (Completes st op) :=
  match op with
  | .post _ _ _ => inferInstanceAs (Decidable True)
  | .poll q r => inferInstanceAs (Decidable ((q, r) ∈ st.queued))
  | .allocate _ => inferInstanceAs (Decidable True)

instance (st : DepthStore) (op : DepthOp) : Decidable (Owned st op) :=
  match op with
  | .post q requestList _ => inferInstanceAs (Decidable
      (∀ p ∈ st.queued, p.2 ∈ requestList.take (st.wrCount q requestList.length).toNat → p.1 = q))
  | .poll q r => inferInstanceAs (Decidable ((q, r) ∈ st.queued))
  | .allocate r => inferInstanceAs (Decidable (∀ p ∈ st.queued, p.2 ≠ r))

/-- The number of requests a work queue has. -/
def queuedOn (st : DepthStore) (q : WorkQueue) : Nat := st.queued.countP (·.1 = q)

theorem countP_map_queue (x q : WorkQueue) (l : List Nat) :
    (l.map (q, ·)).countP (·.1 = x) = if x = q then l.length else 0 := by
  rw [List.countP_map]
  split
  · rename_i hxq
    exact List.countP_eq_length.2 (by simp [hxq])
  · rename_i hxq
    exact List.countP_eq_zero.2 (by simp [Ne.symm hxq])

/-- The store is in order: each counter is the number of requests its work queue has and at most the largest depth, and
a queued request points to the counter of the work queue it is on. -/
structure Accounted (st : DepthStore) : Prop where
  counted : ∀ q, st.wrDepth q = st.queuedOn q
  bounded : ∀ q, q.qpIndex < st.numQp → st.wrDepth q ≤ st.maxWrDepth
  pointed : ∀ p ∈ st.queued, (st.requests p.2).qpDepth = some p.1

namespace Accounted

/-- The device's largest capacity is an `int`, so the depth of a queue pair that exists is not negative. -/
theorem of_construct {createQp : Nat → Nat → Bool}
    (hdevice : ∀ i capacity, createQp i capacity = true → capacity < 2 ^ 31) {numQpPerEndpoint maxWrPerQp : Nat}
    (h : construct createQp numQpPerEndpoint maxWrPerQp = some st) : Accounted st := by
  unfold construct at h
  split at h
  · rename_i hall
    obtain rfl := Option.some.inj h
    refine ⟨fun q => rfl, fun q hq => ?_, fun p hp => (List.not_mem_nil hp).elim⟩
    have hcap := hdevice _ _ (List.all_eq_true.1 hall q.qpIndex (List.mem_range.2 hq))
    unfold intOfSize Int.bmod
    dsimp only
    split <;> omega
  · cases h

theorem posted (h : Accounted st) {handed : List Nat} {accepted : Nat}
    (hroom : st.wrDepth q + handed.length ≤ st.maxWrDepth) (howned : ∀ p ∈ st.queued, p.2 ∈ handed → p.1 = q)
    (hp : Posted st q handed accepted st') : Accounted st' := by
  constructor
  · -- the counter and the number of queued requests go up together
    intro x
    have hx := h.counted x
    unfold queuedOn at hx ⊢
    rw [hp.wrDepth, hp.queued, List.countP_append, countP_map_queue]
    by_cases hxq : x = q
    · subst hxq
      rw [Function.update_self, hx, if_pos rfl]
      push_cast
      rfl
    · rw [Function.update_of_ne hxq, hx, if_neg hxq]
      rfl
  · intro x hx
    rw [hp.numQp] at hx
    rw [hp.maxWrDepth, hp.wrDepth]
    by_cases hxq : x = q
    · subst hxq
      rw [Function.update_self, List.length_take]
      omega
    · rw [Function.update_of_ne hxq]
      exact h.bounded x hx
  · -- a request handed over points to `q` now, and it is queued nowhere else
    intro p hmem
    rw [hp.queued] at hmem
    rw [hp.qpDepth]
    rcases List.mem_append.1 hmem with hold | hnew
    · split
      · rename_i hin
        rw [howned p hold hin]
      · exact h.pointed p hold
    · obtain ⟨r, hr, rfl⟩ := List.mem_map.1 hnew
      rw [if_pos (List.mem_of_mem_take hr)]

theorem post (h : Accounted st) {requestList : List Nat} {accepted : Nat} {ret : Int}
    (howned : Owned st (.post q requestList accepted)) (hs : st.post q requestList accepted = some (ret, st')) :
    Accounted st' := by
  obtain ⟨-, hret, ⟨-, rfl⟩ | ⟨-, hlen, hp⟩⟩ := post_cases hs
  · exact h
  · have hroom : ret ≤ st.maxWrDepth - st.wrDepth q := hret ▸ min_le_left _ _
    have hhanded : ∀ p ∈ st.queued, p.2 ∈ requestList.take ret.toNat → p.1 = q := by
      rw [hret]
      exact howned
    exact h.posted (by omega) hhanded hp

theorem poll (h : Accounted st) (hmem : (q, r) ∈ st.queued) (hs : st.poll q r = some st') : Accounted st' := by
  unfold DepthStore.poll at hs
  -- the request points to the work queue its completion comes from
  rw [h.pointed _ hmem, Option.map_some] at hs
  obtain rfl := Option.some.inj hs
  refine ⟨fun x => ?_, fun x hx => ?_, fun p hp => h.pointed p (List.mem_of_mem_erase hp)⟩
  · have hx := h.counted x
    unfold queuedOn at hx ⊢
    dsimp only
    rw [List.countP_erase]
    by_cases hxq : x = q
    · subst hxq
      have hpos : 0 < st.queued.countP (·.1 = x) := List.countP_pos_iff.2 ⟨_, hmem, by simp⟩
      rw [Function.update_self, hx]
      simp only [hmem, decide_true, and_self, if_true]
      omega
    · rw [Function.update_of_ne hxq, hx]
      simp [Ne.symm hxq]
  · dsimp only at hx ⊢
    by_cases hxq : x = q
    · subst hxq
      have := h.bounded x hx
      rw [Function.update_self]
      omega
    · rw [Function.update_of_ne hxq]
      exact h.bounded x hx

theorem allocate (h : Accounted st) (hfree : ∀ p ∈ st.queued, p.2 ≠ r) : Accounted (st.allocate r) := by
  refine ⟨h.counted, h.bounded, fun p hp => ?_⟩
  show (Function.update st.requests r {} p.2).qpDepth = some p.1
  rw [Function.update_of_ne (hfree p hp)]
  exact h.pointed p hp

theorem step (h : Accounted st) {op : DepthOp} (hok : Owned st op) (hs : DepthStore.step st op = some st') :
    Accounted st' := by
  cases op with
  | post q requestList accepted =>
    obtain ⟨⟨ret, s⟩, hpost, rfl⟩ := Option.map_eq_some_iff.1 hs
    exact h.post hok hpost
  | poll q r => exact h.poll hok hs
  | allocate r =>
    cases hs
    exact h.allocate hok

/-- A post on a queue pair of a list whose size is not negative as an `int` hands over a number of requests. -/
theorem wrCount_nonneg (h : Accounted st) (hq : q.qpIndex < st.numQp) {size : Nat} (hsize : 0 ≤ intOfSize size) :
    0 ≤ st.wrCount q size := by
  have := h.bounded q hq
  unfold wrCount
  omega

end Accounted

/-! ## Refused requests -/

/-- The operation hands the request to a verb that does not queue it. -/
def Refuses (st : DepthStore) (r : Nat) : DepthOp → Prop
  | .post q requestList accepted =>
    r ∈ (requestList.take (st.wrCount q requestList.length).toNat).drop accepted
  | _ => False

/-- Some operation of the run did so, and the request has not been handed out since. -/
def Refused (st0 : DepthStore) (ops : List DepthOp) (r : Nat) : Prop :=
  ∃ before op after st, ops = before ++ op :: after ∧ Run step Owned st0 before st ∧ Refuses st r op ∧
    .allocate r ∉ after

/-- What one more operation adds to the history. -/
theorem refused_snoc {st0 : DepthStore} {ops : List DepthOp} {op : DepthOp} (hrun : Run step Owned st0 ops st) :
    Refused st0 (ops ++ [op]) r ↔ Refuses st r op ∨ (Refused st0 ops r ∧ op ≠ .allocate r) := by
  constructor
  · rintro ⟨before, x, after, st1, hops, hbefore, hx, hafter⟩
    rcases List.eq_nil_or_concat after with rfl | ⟨after', y, rfl⟩
    · obtain ⟨rfl, hop⟩ := List.append_inj' hops rfl
      cases hop
      rw [hrun.unique hbefore]
      exact .inl hx
    · rw [List.concat_eq_append, ← List.cons_append, ← List.append_assoc] at hops
      obtain ⟨rfl, hop⟩ := List.append_inj' hops rfl
      cases hop
      simp only [List.concat_eq_append, List.mem_append, List.mem_singleton, not_or] at hafter
      exact .inr ⟨⟨before, x, after', st1, rfl, hbefore, hx, hafter.1⟩, Ne.symm hafter.2⟩
  · rintro (hx | ⟨⟨before, x, after, st1, rfl, hbefore, hx, hafter⟩, hne⟩)
    · exact ⟨ops, op, [], st, rfl, hrun, hx, List.not_mem_nil⟩
    · refine ⟨before, x, after ++ [op], st1, by simp, hbefore, hx, ?_⟩
      simp only [List.mem_append, List.mem_singleton, not_or]
      exact ⟨hafter, Ne.symm hne⟩

/-- What one operation does to the status of a request. -/
theorem failed_step {op : DepthOp} (hs : step st op = some st') :
    (st'.requests r).status = .failed ↔
      Refuses st r op ∨ ((st.requests r).status = .failed ∧ op ≠ .allocate r) := by
  cases op with
  | post q requestList accepted =>
    obtain ⟨⟨ret, s⟩, hpost, rfl⟩ := Option.map_eq_some_iff.1 hs
    obtain ⟨-, hret, ⟨h0, rfl⟩ | ⟨-, -, hp⟩⟩ := post_cases hpost
    · simp [Refuses, ← hret, h0]
    · rw [hp.status, hret]
      simp only [Refuses]
      split <;> simp_all
  | poll q x =>
    obtain ⟨p, -, rfl⟩ := Option.map_eq_some_iff.1 hs
    simp [Refuses]
  | allocate x =>
    cases hs
    by_cases hx : r = x
    · subst hx
      simp [allocate, Refuses]
    · simp [allocate, Refuses, Function.update_of_ne hx, Ne.symm hx]

theorem failed_iff_refused {st0 : DepthStore} (hnew : ∀ r, (st0.requests r).status ≠ .failed) {ops : List DepthOp}
    (hrun : Run step Owned st0 ops st) (r : Nat) : (st.requests r).status = .failed ↔ Refused st0 ops r := by
  induction hrun with
  | nil =>
    refine iff_of_false (hnew r) ?_
    rintro ⟨before, x, after, -, hops, -⟩
    exact List.append_ne_nil_of_right_ne_nil _ (List.cons_ne_nil _ _) hops.symm
  | snoc hrun _ hs ih => rw [failed_step hs, refused_snoc hrun, ih]

/-- As long as no request is posted on a second work queue, or handed out again, while a queue has it: every counter is
the number of requests its work queue has, at most the largest depth; the number of requests of a post is not negative;
and the failed requests are those that a verb was handed and did not queue since they were handed out. -/
theorem depth_exact {createQp : Nat → Nat → Bool}
    (hdevice : ∀ i capacity, createQp i capacity = true → capacity < 2 ^ 31) {numQpPerEndpoint maxWrPerQp : Nat}
    {st0 st : DepthStore} (h0 : construct createQp numQpPerEndpoint maxWrPerQp = some st0) {ops : List DepthOp}
    (hrun : Run step Owned st0 ops st) :
    (∀ q, q.qpIndex < st.numQp →
      st.wrDepth q = st.queuedOn q ∧ 0 ≤ st.wrDepth q ∧ st.wrDepth q ≤ st.maxWrDepth ∧
        ∀ size, 0 ≤ intOfSize size → 0 ≤ st.wrCount q size) ∧
      ∀ r, (st.requests r).status = .failed ↔ Refused st0 ops r := by
  have h : Accounted st := hrun.invariant (.of_construct hdevice h0) fun _ _ _ h hok hs => h.step hok hs
  refine ⟨fun q hq => ⟨h.counted q, ?_, h.bounded q hq, fun size hsize => h.wrCount_nonneg hq hsize⟩, ?_⟩
  · rw [h.counted q]
    exact Int.natCast_nonneg _
  · refine failed_iff_refused (fun r => ?_) hrun
    rw [construct_requests h0]
    rintro ⟨⟩

/-- A device with queue pairs of up to 16 requests. -/
def smallDevice (_ capacity : Nat) : Bool := capacity ≤ 16

/-- Two queue pairs of depth four: five requests are posted and four handed over, of which the verb takes three; one of
these completes, and the refused one is posted again and queued. -/
def refusedOnce : List DepthOp :=
  [.allocate 9, .post ⟨.send, 1⟩ [5, 6, 7, 8, 9] 3, .poll ⟨.send, 1⟩ 6, .post ⟨.send, 1⟩ [8] 1]

/-- The refused request is FAILED though it is queued by now, and the counter is right. -/
theorem depth_after_refusal :
    ∃ st0 st, construct smallDevice 2 4 = some st0 ∧ Run step Owned st0 refusedOnce st ∧
      st.wrDepth ⟨.send, 1⟩ = st.queuedOn ⟨.send, 1⟩ ∧ (⟨.send, 1⟩, 8) ∈ st.queued ∧
      (st.requests 8).status = .failed := by
  obtain ⟨st0, st1, h0, hrun1, hcount⟩ := exists_run_of_start step Owned (construct smallDevice 2 4)
    (refusedOnce.take 1) (fun st => decide (st.wrCount ⟨.send, 1⟩ 5 = 4)) (by decide +kernel)
  obtain ⟨st0', st, h0', hrun, ht⟩ := exists_run_of_start step Owned (construct smallDevice 2 4) refusedOnce
    (fun st => decide ((⟨.send, 1⟩, 8) ∈ st.queued ∧ st.numQp = 2)) (by decide +kernel)
  obtain ⟨hqueued, hqp⟩ := of_decide_eq_true ht
  rw [h0] at h0'; cases h0'
  have hexact := depth_exact (fun _ _ h => by have := of_decide_eq_true h; omega) h0 hrun
  refine ⟨st0, st, h0, hrun, (hexact.1 ⟨.send, 1⟩ (by rw [hqp]; decide)).1, hqueued, (hexact.2 8).2 ?_⟩
  refine ⟨_, _, _, st1, rfl, hrun1, ?_, by simp⟩
  show 8 ∈ ([5, 6, 7, 8, 9].take (st1.wrCount ⟨.send, 1⟩ 5).toNat).drop 3
  rw [of_decide_eq_true hcount]
  decide

/-- A request is posted on two queue pairs. Both completions lower the counter of the second, to -1, and the first keeps
its 1 with nothing queued. And a list of 2^31 requests has a negative number of requests. -/
theorem depth_misled :
    ∃ st0 st, construct smallDevice 2 4 = some st0 ∧
      Run step Completes st0
        [.post ⟨.send, 0⟩ [7] 1, .post ⟨.send, 1⟩ [7] 1, .poll ⟨.send, 0⟩ 7, .poll ⟨.send, 1⟩ 7] st ∧
      (st.queued = [] ∧ st.wrDepth ⟨.send, 0⟩ = 1 ∧ st.wrDepth ⟨.send, 1⟩ = -1) ∧
      st0.wrCount ⟨.send, 0⟩ (List.replicate (2 ^ 31) 7).length < 0 := by
  obtain ⟨st0, st, h0, hrun, ht⟩ := exists_run_of_start step Completes (construct smallDevice 2 4)
    [.post ⟨.send, 0⟩ [7] 1, .post ⟨.send, 1⟩ [7] 1, .poll ⟨.send, 0⟩ 7, .poll ⟨.send, 1⟩ 7]
    (fun st => st.queued == [] && (st.wrDepth ⟨.send, 0⟩ == 1 && st.wrDepth ⟨.send, 1⟩ == -1)) (by decide +kernel)
  simp only [Bool.and_eq_true, beq_iff_eq] at ht
  refine ⟨st0, st, h0, hrun, ht, ?_⟩
  have hcast : intOfSize (List.replicate (2 ^ 31) 7).length < 0 := by
    rw [List.length_replicate]
    decide
  exact lt_of_le_of_lt (min_le_right _ _) hcast

end DepthStore

end RapidTransfer
