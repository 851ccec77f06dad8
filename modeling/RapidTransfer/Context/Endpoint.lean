/-
The unreliable-datagram endpoints (`rdma_ud_endpoint.cpp`, `rdma_ud_endpoint_store.cpp`) as far as
the contexts post sends through them: one endpoint for each peer name, queue pairs shared by all of
them, and a depth counter for each queue pair. The NIC is the list `outstanding` of requests it has
taken and not completed.

What the source leaves to chance or to the verbs is an argument: the random queue pair of a post and
how many of its requests `ibv_post_send` takes.
-/
import RapidTransfer.Packet.Handle

namespace RapidTransfer

/-- `RdmaUDEndPoint` -/
structure Endpoint where
  connected : Bool
  peerQpNumList : List Nat
  deriving DecidableEq, Repr

/-- A work request; `context` names the session whose `ack_handle` it points to. -/
structure Request where
  context : Option Nat
  deriving DecidableEq, Repr

/-- The random draw of a post and the number of requests the verb takes. -/
structure Post where
  qpPick : Nat
  accepted : Nat
  deriving DecidableEq, Repr

/-- `RdmaUDEndPointStore` -/
structure EndpointStore where
  endpointMap : String → Option Endpoint
  maxWrDepth : Int
  numQp : Nat
  sendWrDepth : Nat → Int
  outstanding : List (Nat × Request)

namespace EndpointStore

def construct (numQp : Nat) (maxWrPerQp : Int) : EndpointStore :=
  { endpointMap := fun _ => none, maxWrDepth := maxWrPerQp, numQp := numQp, sendWrDepth := fun _ => 0,
    outstanding := [] }

/-- `getOrCreateEndpoint`, `none` for the null pointer. -/
def getOrCreateEndpoint (st : EndpointStore) (peerNicPath : String) : Option Endpoint × EndpointStore :=
  if peerNicPath = "" then (none, st)
  else
    match st.endpointMap peerNicPath with
    | some ep => (some ep, st)
    | none =>
      let ep : Endpoint := ⟨false, []⟩
      (some ep, { st with endpointMap := Function.update st.endpointMap peerNicPath (some ep) })

/-- `RdmaUDEndPoint::setupConnection`: an endpoint that is connected stays as it is. -/
def setupConnection (st : EndpointStore) (peerNicPath : String) (peerQpNumList : List Nat) (ahCreated : Bool) :
    Int × EndpointStore :=
  match st.getOrCreateEndpoint peerNicPath with
  | (none, st) => (-1, st)
  | (some ep, st) =>
    if ep.connected then (0, st)
    else if !ahCreated then (-1, st)
    else (0, { st with endpointMap := Function.update st.endpointMap peerNicPath (some ⟨true, peerQpNumList⟩) })

/-- `RdmaUDEndPointStore::postSendRequest`: the return value counts the requests handed to the verb,
also those it refuses; the depth counts those it takes. -/
def post (st : EndpointStore) (requestList : List Request) (qpIndex accepted : Nat) : Option (Int × EndpointStore) :=
  let wrCount := min (st.maxWrDepth - st.sendWrDepth qpIndex) requestList.length
  if wrCount = 0 then some (0, st)
  else if wrCount < 0 then none
  else
    let queued := min accepted wrCount.toNat
    some (wrCount,
      { st with
        sendWrDepth := Function.update st.sendWrDepth qpIndex (st.sendWrDepth qpIndex + queued)
        outstanding := st.outstanding ++ (requestList.take queued).map (qpIndex, ·) })

/-- `RdmaUDEndPoint::postSendRequest`: the two random draws divide by the number of queue pairs. -/
def postSendRequest (st : EndpointStore) (ep : Endpoint) (requestList : List Request) (p : Post) :
    Option (Int × EndpointStore) :=
  if !ep.connected then some (-1, st)
  else if ep.peerQpNumList.length = 0 ∨ st.numQp = 0 then none
  else st.post requestList (p.qpPick % st.numQp) p.accepted

/-- A completion of an outstanding request is polled. -/
def complete (st : EndpointStore) (r : Nat × Request) : EndpointStore :=
  { st with
    outstanding := st.outstanding.erase r
    sendWrDepth := Function.update st.sendWrDepth r.1 (st.sendWrDepth r.1 - 1) }

/-! ## What the operations do -/

theorem getOrCreateEndpoint_cases (st : EndpointStore) (name : String) :
    (name = "" ∧ st.getOrCreateEndpoint name = (none, st)) ∨
    (∃ ep, name ≠ "" ∧ st.endpointMap name = some ep ∧ st.getOrCreateEndpoint name = (some ep, st)) ∨
    (name ≠ "" ∧ st.endpointMap name = none ∧ st.getOrCreateEndpoint name =
      (some ⟨false, []⟩, { st with endpointMap := Function.update st.endpointMap name (some ⟨false, []⟩) })) := by
  unfold getOrCreateEndpoint
  by_cases hn : name = ""
  · exact .inl ⟨hn, if_pos hn⟩
  · rw [if_neg hn]
    cases h : st.endpointMap name with
    | none => exact .inr (.inr ⟨hn, rfl, rfl⟩)
    | some ep => exact .inr (.inl ⟨ep, hn, rfl, rfl⟩)

theorem getOrCreateEndpoint_outstanding (st : EndpointStore) (name : String) :
    (st.getOrCreateEndpoint name).2.outstanding = st.outstanding := by
  obtain ⟨-, he⟩ | ⟨ep, -, -, he⟩ | ⟨-, -, he⟩ := st.getOrCreateEndpoint_cases name <;> rw [he]

/-- A post adds the requests the verb takes, at most those of its list. -/
theorem post_outstanding {st st' : EndpointStore} {rs : List Request} {qp k : Nat} {ret : Int}
    (h : st.post rs qp k = some (ret, st')) :
    ∃ j, st'.outstanding = st.outstanding ++ (rs.take j).map (qp, ·) := by
  unfold post at h
  simp only at h
  split at h
  · cases h; exact ⟨0, by simp⟩
  · split at h
    · cases h
    · cases h; exact ⟨_, rfl⟩

theorem postSendRequest_outstanding {st st' : EndpointStore} {ep : Endpoint} {rs : List Request} {p : Post} {ret : Int}
    (h : st.postSendRequest ep rs p = some (ret, st')) :
    ∃ qp j, st'.outstanding = st.outstanding ++ (rs.take j).map (qp, ·) := by
  unfold postSendRequest at h
  split at h
  · cases h; exact ⟨0, 0, by simp⟩
  · split at h
    · cases h
    · obtain ⟨j, hj⟩ := post_outstanding h; exact ⟨_, j, hj⟩

theorem setupConnection_outstanding (st : EndpointStore) (name : String) (Q : List Nat) (created : Bool) :
    (st.setupConnection name Q created).2.outstanding = st.outstanding := by
  have hg := st.getOrCreateEndpoint_outstanding name
  unfold setupConnection
  split
  · rename_i hl; rw [hl] at hg; exact hg
  · rename_i hl
    rw [hl] at hg
    split
    · exact hg
    · split
      · exact hg
      · exact hg

end EndpointStore

end RapidTransfer
