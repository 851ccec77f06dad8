/-
The connections of the reliable protocol: `RdmaRCEndPoint::setupConnection` (`rdma_rc_endpoint.cpp`) and
`prepareConnection` and `setupConnection` of `rdma_reliable/impl.cpp` under the handshake. An endpoint has one or more
queue pairs. Setting it up moves them one after the other through RESET, INIT, RTR and RTS, and each of the four calls
may fail; the endpoint then keeps the status it had, also when it was connected before.

Every session of every run has an endpoint that is paired with one of its server: queue pair by queue pair, each of the
two is ready to send and has the other one as its destination (`sessions_are_paired`).
-/
import RapidTransfer.Session.Handshake
import RapidTransfer.Reliable.Protocol

namespace RapidTransfer.Reliable

open Text Attributes

/-! ## Endpoints -/

inductive QpState
  | reset
  | init
  | rtr
  | rts
  deriving DecidableEq, Repr

/-- What a queue pair is told of its peer on the way to RTR. -/
structure Destination where
  dgid : Gid
  dlid : UInt16
  destQpNum : UInt32
  deriving DecidableEq, Repr

structure QueuePair where
  qpNum : UInt32
  state : QpState
  dest : Option Destination
  deriving DecidableEq, Repr

/-- `RdmaRCEndPoint` after `construct`: it has queue pairs, and is UNCONNECTED or CONNECTED. -/
structure RdmaRCEndPoint where
  connected : Bool
  qpList : List QueuePair
  qpList_ne : qpList ≠ []
  deriving DecidableEq

/-- What the verbs answer, what the gid loops find in `value`, whether the buffers of a call are registered, and the id
that a task is given. -/
structure Device where
  created : List UInt32
  modified : Nat → QpState → Bool
  raw : Nat → Nat → Int
  registered : Bool
  taskId : Int

/-- `setupConnection` of one queue pair: any state, RESET, INIT, RTR, RTS. -/
def QueuePair.setupConnection (qp : QueuePair) (dest : Destination) (modified : QpState → Bool) : Int × QueuePair :=
  if !modified .reset then (-1, qp)
  else if !modified .init then (-1, { qp with state := .reset, dest := none })
  else if !modified .rtr then (-1, { qp with state := .init, dest := none })
  else if !modified .rts then (-1, { qp with state := .rtr, dest := some dest })
  else (0, { qp with state := .rts, dest := some dest })

/-- The loop of `setupConnection`; it ends with the first queue pair that fails. -/
def setupAll (gid : Nat → Gid) (lid : UInt16) (modified : Nat → QpState → Bool) :
    Nat → List QueuePair → List UInt32 → Int × List QueuePair
  | index, qp :: qps, num :: nums =>
    let (ret, qp) := qp.setupConnection ⟨gid index, lid, num⟩ (modified index)
    if ret ≠ 0 then (ret, qp :: qps)
    else
      let (ret, qps) := setupAll gid lid modified (index + 1) qps nums
      (ret, qp :: qps)
  | _, qps, _ => (0, qps)

theorem length_setupAll (gid : Nat → Gid) (lid : UInt16) (modified : Nat → QpState → Bool) :
    ∀ (index : Nat) (qps : List QueuePair) (nums : List UInt32),
      (setupAll gid lid modified index qps nums).2.length = qps.length
  | _, [], _ => by simp [setupAll]
  | _, _ :: _, [] => by simp [setupAll]
  | index, qp :: qps, num :: nums => by
    unfold setupAll
    dsimp only
    split
    · simp
    · simp [length_setupAll gid lid modified (index + 1) qps nums]

theorem setupAll_ne {gid : Nat → Gid} {lid : UInt16} {modified : Nat → QpState → Bool} {index : Nat}
    {qps : List QueuePair} {nums : List UInt32} (h : qps ≠ []) : (setupAll gid lid modified index qps nums).2 ≠ [] := by
  rw [← List.length_pos_iff, length_setupAll]
  exact List.length_pos_iff.2 h

namespace RdmaRCEndPoint

def qpNum (ep : RdmaRCEndPoint) : List UInt32 := ep.qpList.map (·.qpNum)

def setupConnection (ep : RdmaRCEndPoint) (peerGid : List Char) (peerLid : UInt16) (peerQpNumList : List UInt32)
    (device : Device) : Int × RdmaRCEndPoint :=
  if ep.qpList.length ≠ peerQpNumList.length then (-1, ep)
  else
    let gid := fun index => parseGid (device.raw index) peerGid
    let r := setupAll gid peerLid device.modified 0 ep.qpList peerQpNumList
    (r.1, ⟨if r.1 ≠ 0 then ep.connected else true, r.2, setupAll_ne ep.qpList_ne⟩)

end RdmaRCEndPoint

/-- The part of `RdmaReliableProtocol` that connections are about: the device and the endpoint store. The device gives
every queue pair a number of its own. -/
structure Connections where
  lid : UInt16
  gid : Gid
  numQpPerEndpoint : Nat
  endpointMap : String → Option RdmaRCEndPoint
  qpNums : List UInt32

namespace Connections

def construct (lid : UInt16) (gid : Gid) (numQpPerEndpoint : Nat) : Connections :=
  { lid := lid, gid := gid, numQpPerEndpoint := numQpPerEndpoint, endpointMap := fun _ => none, qpNums := [] }

def setEndpoint (s : Connections) (peer : String) (ep : RdmaRCEndPoint) : Connections :=
  { s with endpointMap := Function.update s.endpointMap peer (some ep) }

theorem setEndpoint_self (s : Connections) (peer : String) (ep : RdmaRCEndPoint) :
    (s.setEndpoint peer ep).endpointMap peer = some ep := Function.update_self ..

theorem setEndpoint_of_ne (s : Connections) {peer x : String} (h : x ≠ peer) (ep : RdmaRCEndPoint) :
    (s.setEndpoint peer ep).endpointMap x = s.endpointMap x := Function.update_of_ne h ..

theorem setEndpoint_cases {s : Connections} {peer x : String} {ep e : RdmaRCEndPoint}
    (h : (s.setEndpoint peer ep).endpointMap x = some e) : x = peer ∧ e = ep ∨ x ≠ peer ∧ s.endpointMap x = some e := by
  by_cases hx : x = peer
  · subst hx
    exact .inl ⟨rfl, Option.some.inj (h.symm.trans (s.setEndpoint_self x ep))⟩
  · exact .inr ⟨hx, (s.setEndpoint_of_ne hx ep).symm.trans h⟩

/-- Queue pairs can be created if the device has a new number for each of them. The numbers are gone through one by one:
a quantifier over `UInt32` could be decided over all of its values. -/
def canCreate (s : Connections) (created : List UInt32) : Bool :=
  !created.isEmpty && created.length == s.numQpPerEndpoint && decide created.Nodup && !created.any s.qpNums.contains

theorem canCreate_ne {s : Connections} {created : List UInt32} (h : s.canCreate created = true) : created ≠ [] := by
  rintro rfl
  cases h

theorem canCreate_new {s : Connections} {created : List UInt32} (h : s.canCreate created = true) :
    ∀ num ∈ created, num ∉ s.qpNums := by
  simp only [canCreate, Bool.and_eq_true, Bool.not_eq_true', List.any_eq_false, List.contains_iff_mem] at h
  exact h.2

/-- `getOrCreateEndpoint` -/
def getOrCreateEndpoint (s : Connections) (peer : String) (created : List UInt32) :
    Option RdmaRCEndPoint × Connections :=
  if peer = "" then (none, s)
  else
    match s.endpointMap peer with
    | some ep => (some ep, s)
    | none =>
      if h : s.canCreate created = true then
        let ep : RdmaRCEndPoint := ⟨false, created.map (⟨·, .reset, none⟩), List.map_eq_nil_iff.not.2 (canCreate_ne h)⟩
        (some ep, { s.setEndpoint peer ep with qpNums := s.qpNums ++ created })
      else (none, s)

/-- The three attributes in an empty map. -/
def attributes (s : Connections) (qpNum : List UInt32) : Attributes :=
  let attrs : Attributes := fun _ => none
  let attrs := Function.update attrs "lid" (some (decimal s.lid.toNat))
  let attrs := Function.update attrs "gid" (some (gidString s.gid.raw))
  Function.update attrs "qp" (some (Attributes.toString qpNum))

def prepareConnection (s : Connections) (peer : String) (device : Device) : Int × Attributes × Connections :=
  match s.getOrCreateEndpoint peer device.created with
  | (none, s) => (-1, fun _ => none, s)
  | (some ep, s) => (0, s.attributes ep.qpNum, s)

/-- `setupConnection`, `none` where `stoi` throws. -/
def setupConnection (s : Connections) (peer : String) (attrs : Attributes) (device : Device) :
    Option (Int × Connections) :=
  match s.getOrCreateEndpoint peer device.created with
  | (none, s) => some (-1, s)
  | (some ep, s) =>
    match attrs "lid", attrs "gid", attrs "qp" with
    | some lid, some gid, some qp =>
      (stoi lid).map fun value =>
        let (ret, ep) := ep.setupConnection gid (UInt16.ofInt value) (fromString qp) device
        (ret, s.setEndpoint peer ep)
    | _, _, _ => some (-1, s)

/-- The common body of `send` and `receive` up to the task: it is refused without an endpoint that is connected, and its
id is returned otherwise, which is negative for half of the ids. -/
def enqueue (s : Connections) (peer : String) (device : Device) : Int × Connections :=
  if !device.registered then (-1, s)
  else
    match s.getOrCreateEndpoint peer device.created with
    | (none, s) => (-1, s)
    | (some ep, s) => (if ep.connected then device.taskId else -1, s)

/-- The reliable protocol under the handshake. -/
def protocol : Handshake.Protocol Connections Device where
  prepareConnection := prepareConnection
  setupConnection := setupConnection
  send := enqueue
  receive := enqueue

end Connections

/-! ## Addresses -/

/-- What the attributes of an endpoint stand for. -/
structure Address where
  gid : Gid
  lid : UInt16
  qpNum : List UInt32
  deriving DecidableEq

/-- Every queue pair is ready to send to the one of the same index. -/
def RdmaRCEndPoint.Reaches (ep : RdmaRCEndPoint) (a : Address) : Prop :=
  ep.connected = true ∧
    List.Forall₂ (fun qp num => qp.state = .rts ∧ qp.dest = some ⟨a.gid, a.lid, num⟩) ep.qpList a.qpNum

/-- The address that `setupConnection` reads in attributes, if their gid is one that was printed. -/
def readAddress (attrs : Attributes) : Option Address :=
  match attrs "lid", attrs "gid", attrs "qp" with
  | some lid, some gid, some qp =>
    (stoi lid).bind fun value =>
      let parsed := parseGid (fun _ => 0) gid
      if gidString parsed.raw = gid then some ⟨parsed, UInt16.ofInt value, fromString qp⟩ else none
  | _, _, _ => none

/-- The endpoints of the reliable protocol as the handshake sees them. -/
def view : Handshake.View Connections Address where
  own s x := (s.endpointMap x).map fun ep => ⟨s.gid, s.lid, ep.qpNum⟩
  ConnectedTo s x a := ∃ ep, s.endpointMap x = some ep ∧ ep.Reaches a
  Idle s x := ∀ ep, s.endpointMap x = some ep → ep.connected = false
  read := readAddress

/-! ## Setting up -/

section setup

variable {gid : Nat → Gid} {lid : UInt16} {modified : Nat → QpState → Bool}

theorem QueuePair.setupConnection_qpNum (qp : QueuePair) (dest : Destination) (modified : QpState → Bool) :
    (qp.setupConnection dest modified).2.qpNum = qp.qpNum := by
  unfold QueuePair.setupConnection
  split_ifs <;> rfl

theorem QueuePair.setupConnection_ok {qp : QueuePair} {dest : Destination} {modified : QpState → Bool}
    (h : (qp.setupConnection dest modified).1 = 0) :
    (qp.setupConnection dest modified).2.state = .rts ∧ (qp.setupConnection dest modified).2.dest = some dest := by
  unfold QueuePair.setupConnection at h ⊢
  split_ifs at h ⊢
  · cases h
  · cases h
  · cases h
  · cases h
  · exact ⟨rfl, rfl⟩

theorem setupAll_qpNum : ∀ (index : Nat) (qps : List QueuePair) (nums : List UInt32),
    (setupAll gid lid modified index qps nums).2.map (·.qpNum) = qps.map (·.qpNum)
  | _, [], _ => by simp [setupAll]
  | _, _ :: _, [] => by simp [setupAll]
  | index, qp :: qps, num :: nums => by
    have hqp := qp.setupConnection_qpNum ⟨gid index, lid, num⟩ (modified index)
    unfold setupAll
    dsimp only
    split
    · simp [hqp]
    · simp [hqp, setupAll_qpNum (index + 1) qps nums]

/-- The loop has come to the end: every queue pair is ready to send. -/
theorem setupAll_ok {g : Gid} (hgid : ∀ index, gid index = g) :
    ∀ {index : Nat} {qps : List QueuePair} {nums : List UInt32},
    qps.length = nums.length → (setupAll gid lid modified index qps nums).1 = 0 →
      List.Forall₂ (fun qp num => qp.state = .rts ∧ qp.dest = some ⟨g, lid, num⟩)
        (setupAll gid lid modified index qps nums).2 nums
  | _, [], [], _, _ => by simp [setupAll]
  | _, [], _ :: _, hlen, _ => by cases hlen
  | _, _ :: _, [], hlen, _ => by cases hlen
  | index, qp :: qps, num :: nums, hlen, h => by
    unfold setupAll at h ⊢
    dsimp only at h ⊢
    split
    · rename_i hret
      rw [if_pos hret] at h
      exact absurd h hret
    · rename_i hret
      rw [if_neg hret] at h
      obtain ⟨hstate, hdest⟩ := QueuePair.setupConnection_ok (not_not.1 hret)
      exact .cons ⟨hstate, by rw [hdest, hgid]⟩ (setupAll_ok hgid (Nat.succ_injective hlen) h)

end setup

namespace RdmaRCEndPoint

variable {ep : RdmaRCEndPoint} {peerGid : List Char} {peerLid : UInt16} {nums : List UInt32} {device : Device}

theorem setupConnection_qpNum : (ep.setupConnection peerGid peerLid nums device).2.qpNum = ep.qpNum := by
  unfold setupConnection
  split
  · rfl
  · exact setupAll_qpNum _ _ _

theorem setupConnection_failed (h : (ep.setupConnection peerGid peerLid nums device).1 ≠ 0) :
    (ep.setupConnection peerGid peerLid nums device).2.connected = ep.connected := by
  unfold setupConnection at h ⊢
  split
  · rfl
  · rename_i hlen
    rw [if_neg hlen] at h
    exact if_pos h

theorem setupConnection_ok {g : Gid} (hgid : ∀ raw, parseGid raw peerGid = g)
    (h : (ep.setupConnection peerGid peerLid nums device).1 = 0) :
    (ep.setupConnection peerGid peerLid nums device).2.Reaches ⟨g, peerLid, nums⟩ := by
  unfold setupConnection at h ⊢
  split
  · rename_i hlen
    rw [if_pos hlen] at h
    cases h
  · rename_i hlen
    rw [if_neg hlen] at h
    refine ⟨if_neg (not_not.2 h), ?_⟩
    exact setupAll_ok (fun index => hgid (device.raw index)) (not_not.1 hlen) h

end RdmaRCEndPoint

namespace Connections

variable {s s' : Connections} {peer : String} {device : Device}

/-- Everything `getOrCreateEndpoint` can do. -/
inductive Got (s : Connections) (peer : String) (created : List UInt32) : Option RdmaRCEndPoint → Connections → Prop
  | refused : Got s peer created none s
  | found {ep : RdmaRCEndPoint} (h : s.endpointMap peer = some ep) : Got s peer created (some ep) s
  | made {ep : RdmaRCEndPoint} (hnone : s.endpointMap peer = none) (hconnected : ep.connected = false)
      (hnum : ep.qpNum = created) (hnew : ∀ num ∈ created, num ∉ s.qpNums) :
      Got s peer created (some ep) { s.setEndpoint peer ep with qpNums := s.qpNums ++ created }

theorem getOrCreateEndpoint_got (s : Connections) (peer : String) (created : List UInt32) :
    Got s peer created (s.getOrCreateEndpoint peer created).1 (s.getOrCreateEndpoint peer created).2 := by
  unfold getOrCreateEndpoint
  split
  · exact .refused
  · split
    · rename_i ep hep
      exact .found hep
    · rename_i hnone
      split
      · rename_i h
        refine .made hnone rfl ?_ (canCreate_new h)
        rw [RdmaRCEndPoint.qpNum, List.map_map]
        exact List.map_id _
      · exact .refused

theorem prepareConnection_state (s : Connections) (x : String) (d : Device) :
    (s.prepareConnection x d).2.2 = (s.getOrCreateEndpoint x d.created).2 := by
  unfold prepareConnection
  split
  · rename_i h
    rw [h]
  · rename_i h
    rw [h]

theorem enqueue_state (s : Connections) (x : String) (d : Device) :
    (s.enqueue x d).2 = s ∨ (s.enqueue x d).2 = (s.getOrCreateEndpoint x d.created).2 := by
  unfold enqueue
  split
  · exact .inl rfl
  · right
    split
    · rename_i h
      rw [h]
    · rename_i h
      rw [h]

theorem Got.endpoint {created : List UInt32} {ep : RdmaRCEndPoint} (h : Got s peer created (some ep) s') :
    s'.endpointMap peer = some ep ∧ s'.gid = s.gid ∧ s'.lid = s.lid := by
  cases h with
  | found h => exact ⟨h, rfl, rfl⟩
  | made => exact ⟨s.setEndpoint_self peer ep, rfl, rfl⟩

/-- Other endpoints are as they were, and an endpoint keeps its queue pairs. -/
theorem grows_of_endpoint (hgid : s'.gid = s.gid) (hlid : s'.lid = s.lid)
    (hother : ∀ x, x ≠ peer → s'.endpointMap x = s.endpointMap x)
    (hpeer : ∀ ep, s.endpointMap peer = some ep → ∃ ep', s'.endpointMap peer = some ep' ∧ ep'.qpNum = ep.qpNum) :
    view.Grows {peer} s s' := by
  constructor
  · intro x a hx
    obtain ⟨ep, hep, rfl⟩ := Option.map_eq_some_iff.1 hx
    refine Option.map_eq_some_iff.2 ?_
    rw [hgid, hlid]
    by_cases hxp : x = peer
    · subst hxp
      obtain ⟨ep', hep', hnum⟩ := hpeer ep hep
      exact ⟨ep', hep', by rw [hnum]⟩
    · exact ⟨ep, (hother x hxp).trans hep, rfl⟩
  · intro x hx hidle ep hep
    exact hidle ep ((hother x hx).symm.trans hep)
  · intro x hx
    funext a
    simp only [view, hother x hx]

theorem Got.grows {created : List UInt32} {r : Option RdmaRCEndPoint} (h : Got s peer created r s') :
    view.Grows ∅ s s' := by
  cases h with
  | refused => exact .refl _ _
  | found => exact .refl _ _
  | @made ep hnone hconnected hnum hnew =>
    have hself := s.setEndpoint_self peer ep
    have hgrows : view.Grows {peer} s { s.setEndpoint peer ep with qpNums := s.qpNums ++ created } := by
      refine grows_of_endpoint rfl rfl (fun x hx => s.setEndpoint_of_ne hx ep) fun ep' hep' => ?_
      rw [hnone] at hep'
      cases hep'
    -- the new endpoint is not connected, as the missing one was not
    refine ⟨hgrows.own, fun x _ hidle => ?_, fun x _ => ?_⟩
    · by_cases hx : x = peer
      · subst hx
        intro ep' hep'
        obtain rfl := Option.some.inj (hself.symm.trans hep')
        exact hconnected
      · exact hgrows.idle x hx hidle
    · by_cases hx : x = peer
      · subst hx
        funext a
        refine propext (iff_of_false ?_ ?_)
        · rintro ⟨ep', hep', hreaches⟩
          obtain rfl := Option.some.inj (hself.symm.trans hep')
          cases hconnected.symm.trans hreaches.1
        · rintro ⟨ep', hep', -⟩
          rw [hnone] at hep'
          cases hep'
      · exact hgrows.connectedTo x hx

/-! ## The laws of the handshake -/

theorem ofInt_lid (lid : UInt16) : UInt16.ofInt (lid.toNat : Int) = lid := by
  apply UInt16.toNat_inj.1
  have hlt := lid.toNat_lt
  simp only [UInt16.ofInt, UInt16.toNat_ofNat']
  omega

theorem readAddress_attributes (s : Connections) (qpNum : List UInt32) :
    readAddress (s.attributes qpNum) = some ⟨s.gid, s.lid, qpNum⟩ := by
  have hlid : stoi (decimal s.lid.toNat) = some (s.lid.toNat : Int) := stoi_decimal (by have := s.lid.toNat_lt; omega)
  unfold readAddress attributes
  simp [hlid, parseGid_gidString, fromString_toString, ofInt_lid]

theorem readAddress_some {attrs : Attributes} {a : Address} (h : readAddress attrs = some a) :
    ∃ lid gid qp value g, attrs "lid" = some lid ∧ attrs "gid" = some gid ∧ attrs "qp" = some qp ∧
    stoi lid = some value ∧ (∀ raw, parseGid raw gid = g) ∧ a = ⟨g, UInt16.ofInt value, fromString qp⟩ := by
  unfold readAddress at h
  split at h
  · rename_i lid gid qp hlid hgid hqp
    obtain ⟨value, hvalue, h⟩ := Option.bind_eq_some_iff.1 h
    dsimp only at h
    split at h
    · rename_i hprinted
      cases h
      refine ⟨lid, gid, qp, value, _, hlid, hgid, hqp, hvalue, fun raw => ?_, rfl⟩
      conv_lhs => rw [← hprinted]
      exact parseGid_gidString raw _
    · cases h
  · cases h

theorem enqueue_grows (s : Connections) (x : String) (d : Device) : view.Grows ∅ s (s.enqueue x d).2 := by
  rcases s.enqueue_state x d with h | h
  · rw [h]
    exact .refl _ _
  · rw [h]
    exact (s.getOrCreateEndpoint_got x d.created).grows

theorem lawful : Handshake.Lawful protocol view where
  prepare_grows s x d := by
    simp only [protocol, prepareConnection_state]
    exact (s.getOrCreateEndpoint_got x d.created).grows
  prepare_read := by
    intro s x d h
    have hgot := s.getOrCreateEndpoint_got x d.created
    simp only [protocol, prepareConnection] at h ⊢
    split at h
    · cases h
    · rename_i ep s' hx
      rw [hx] at hgot
      refine ⟨⟨s'.gid, s'.lid, ep.qpNum⟩, s'.readAddress_attributes ep.qpNum, ?_⟩
      exact Option.map_eq_some_iff.2 ⟨ep, hgot.endpoint.1, rfl⟩
  setup := by
    intro s attrs a hread x d
    have hgot := s.getOrCreateEndpoint_got x d.created
    simp only [protocol, setupConnection]
    split
    · rename_i s1 hx
      rw [hx] at hgot
      refine ⟨-1, s1, rfl, hgot.grows.mono (Set.empty_subset _), fun h => absurd h (by decide), fun _ hidle => ?_⟩
      exact hgot.grows.idle x (Set.notMem_empty x) hidle
    · rename_i ep s1 hx
      rw [hx] at hgot
      obtain ⟨lid, gid, qp, value, g, hlid, hgid, hqp, hvalue, hprinted, rfl⟩ := readAddress_some hread
      rw [hlid, hgid, hqp]
      simp only [hvalue, Option.map_some]
      refine ⟨_, _, rfl, (hgot.grows.mono (Set.empty_subset _)).trans ?_, fun h => ?_, fun h hidle => ?_⟩
      · refine grows_of_endpoint rfl rfl (fun y hy => s1.setEndpoint_of_ne hy _) fun ep' hep' => ?_
        obtain rfl := Option.some.inj (hgot.endpoint.1.symm.trans hep')
        exact ⟨_, s1.setEndpoint_self x _, RdmaRCEndPoint.setupConnection_qpNum⟩
      · exact ⟨_, s1.setEndpoint_self x _, RdmaRCEndPoint.setupConnection_ok hprinted h⟩
      · rintro ep' hep'
        obtain rfl := Option.some.inj ((s1.setEndpoint_self x _).symm.trans hep')
        rw [RdmaRCEndPoint.setupConnection_failed h]
        exact hgot.grows.idle x (Set.notMem_empty x) hidle ep hgot.endpoint.1
  send_grows := enqueue_grows
  receive_grows := enqueue_grows

/-! ## Numbers -/

/-- The device is the one it was, and no two endpoints of it have a queue pair in common. -/
structure Numbered (gid : Gid) (s : Connections) : Prop where
  gid : s.gid = gid
  used : ∀ x ep, s.endpointMap x = some ep → ∀ num ∈ ep.qpNum, num ∈ s.qpNums
  distinct : ∀ x y ep ep' num, s.endpointMap x = some ep → s.endpointMap y = some ep' → num ∈ ep.qpNum →
    num ∈ ep'.qpNum → x = y

theorem Numbered.got {g : Gid} {created : List UInt32} {r : Option RdmaRCEndPoint} (h : Numbered g s)
    (hgot : Got s peer created r s') : Numbered g s' := by
  cases hgot with
  | refused => exact h
  | found => exact h
  | @made ep hnone hconnected hnum hnew =>
    refine ⟨h.gid, fun x ep' hep' num hmem => ?_, fun x y e e' num hx hy hnum1 hnum2 => ?_⟩
    · rcases setEndpoint_cases hep' with ⟨-, rfl⟩ | ⟨-, hold⟩
      · exact List.mem_append_right _ (hnum ▸ hmem)
      · exact List.mem_append_left _ (h.used x ep' hold num hmem)
    · rcases setEndpoint_cases hx with ⟨rfl, rfl⟩ | ⟨-, hold⟩
      · rcases setEndpoint_cases hy with ⟨rfl, -⟩ | ⟨-, hold'⟩
        · rfl
        · exact absurd (h.used y e' hold' num hnum2) (hnew num (hnum ▸ hnum1))
      · rcases setEndpoint_cases hy with ⟨rfl, rfl⟩ | ⟨-, hold'⟩
        · exact absurd (h.used x e hold num hnum1) (hnew num (hnum ▸ hnum2))
        · exact h.distinct x y e e' num hold hold' hnum1 hnum2

/-- An endpoint that is set up keeps its queue pairs. -/
theorem Numbered.setEndpoint {g : Gid} {ep ep' : RdmaRCEndPoint} (h : Numbered g s) (hep : s.endpointMap peer = some ep)
    (hnum : ep'.qpNum = ep.qpNum) : Numbered g (s.setEndpoint peer ep') := by
  have hold : ∀ x e, (s.setEndpoint peer ep').endpointMap x = some e → ∃ e', s.endpointMap x = some e' ∧
      e'.qpNum = e.qpNum := by
    intro x e he
    rcases setEndpoint_cases he with ⟨rfl, rfl⟩ | ⟨-, hold⟩
    · exact ⟨ep, hep, hnum.symm⟩
    · exact ⟨e, hold, rfl⟩
  refine ⟨h.gid, fun x e he num hmem => ?_, fun x y e1 e2 num h1 h2 hnum1 hnum2 => ?_⟩
  · obtain ⟨e', he', hq⟩ := hold x e he
    exact h.used x e' he' num (hq ▸ hmem)
  · obtain ⟨e1', h1', hq1⟩ := hold x e1 h1
    obtain ⟨e2', h2', hq2⟩ := hold y e2 h2
    exact h.distinct x y e1' e2' num h1' h2' (hq1 ▸ hnum1) (hq2 ▸ hnum2)

theorem Numbered.enqueue {g : Gid} (h : Numbered g s) (x : String) (d : Device) : Numbered g (s.enqueue x d).2 := by
  rcases s.enqueue_state x d with hx | hx
  · rw [hx]
    exact h
  · rw [hx]
    exact h.got (s.getOrCreateEndpoint_got x d.created)

theorem kept_numbered (g : Gid) : Handshake.Kept protocol (Numbered g) where
  prepare s x d h := by
    simp only [protocol, prepareConnection_state]
    exact h.got (s.getOrCreateEndpoint_got x d.created)
  setup s x attrs d h := by
    rintro ⟨ret, s'⟩ hr
    have hgot := s.getOrCreateEndpoint_got x d.created
    have hnumbered := h.got hgot
    simp only [protocol, setupConnection] at hr
    split at hr
    · rename_i hx
      cases hr
      rw [hx] at hnumbered
      exact hnumbered
    · rename_i ep s1 hx
      rw [hx] at hgot hnumbered
      split at hr
      · obtain ⟨value, -, hr⟩ := Option.map_eq_some_iff.1 hr
        cases hr
        exact hnumbered.setEndpoint hgot.endpoint.1 RdmaRCEndPoint.setupConnection_qpNum
      · cases hr
        exact hnumbered
  send s x d h := h.enqueue x d
  receive s x d h := h.enqueue x d

end Connections

/-! ## The tasks of the protocol -/

/-- The endpoints are the same ones to `send` and `receive`, which ask only whether they are connected. -/
def Agrees (p : Protocol) (s : Connections) : Prop :=
  ∀ x, (p.endpointMap x).map (·.connected) = (s.endpointMap x).map (·.connected)

section tasks

variable {p : Protocol} {s : Connections} {peer : String} {device : Device} {created : Bool}

theorem Agrees.getOrCreateEndpoint (h : Agrees p s) (peer : String) (hcreated : created = s.canCreate device.created) :
    (p.getOrCreateEndpoint peer created).1.map (·.connected) =
        (s.getOrCreateEndpoint peer device.created).1.map (·.connected) ∧
      Agrees (p.getOrCreateEndpoint peer created).2 (s.getOrCreateEndpoint peer device.created).2 := by
  have hpeer := h peer
  unfold Protocol.getOrCreateEndpoint Connections.getOrCreateEndpoint
  split
  · exact ⟨rfl, h⟩
  · cases hs : s.endpointMap peer with
    | some ep =>
      rw [hs] at hpeer
      obtain ⟨ep', hp, hep⟩ := Option.map_eq_some_iff.1 hpeer
      rw [hp]
      exact ⟨congrArg some hep, h⟩
    | none =>
      rw [hs] at hpeer
      rw [Option.map_eq_none_iff.1 hpeer, hcreated]
      dsimp only
      split
      · refine ⟨rfl, fun x => ?_⟩
        by_cases hx : x = peer
        · subst hx
          simp [Connections.setEndpoint]
        · simpa [Connections.setEndpoint, hx] using h x
      · exact ⟨rfl, h⟩

/-- The two models of the call return the same. -/
theorem Agrees.enqueue (h : Agrees p s) {type : RequestType} {buffers : List Buffer}
    (hregistered : device.registered = !buffers.any fun b => (MemoryRegion.key p.memoryRegionList b.addr).1 == 0)
    (hcreated : created = s.canCreate device.created) (hid : device.taskId = Int.bmod p.nextTaskId (2 ^ 32)) :
    (p.enqueue type peer buffers created).1 = (s.enqueue peer device).1 ∧
      Agrees (p.enqueue type peer buffers created).2 (s.enqueue peer device).2 := by
  have hallocated : Agrees (p.allocateTask type).2 s := h
  obtain ⟨hep, hagrees⟩ := hallocated.getOrCreateEndpoint peer hcreated
  unfold Protocol.enqueue Connections.enqueue
  dsimp only
  rw [hregistered]
  split
  · rename_i hany
    rw [if_pos (by rw [hany]; rfl)]
    exact ⟨rfl, h⟩
  · rename_i hany
    rw [if_neg (by simpa using hany)]
    obtain ⟨r, s1, hs⟩ : ∃ r s1, s.getOrCreateEndpoint peer device.created = (r, s1) := ⟨_, _, rfl⟩
    obtain ⟨r', p1, hp⟩ : ∃ r' p1, (p.allocateTask type).2.getOrCreateEndpoint peer created = (r', p1) := ⟨_, _, rfl⟩
    rw [hs, hp] at hep hagrees
    rw [hs, hp]
    cases r with
    | none =>
      cases Option.map_eq_none_iff.1 hep
      exact ⟨rfl, hagrees⟩
    | some ep =>
      obtain ⟨ep', rfl, hconnected⟩ := Option.map_eq_some_iff.1 hep
      dsimp only at hconnected ⊢
      rw [hconnected]
      cases ep.connected with
      | false => exact ⟨rfl, hagrees⟩
      | true =>
        simp only [Bool.not_true, Bool.false_eq_true, if_false, if_true]
        exact ⟨hid.symm, hagrees⟩

end tasks

/-! ## Pairs -/

/-- Two endpoints are connected to each other: queue pair by queue pair, each of the two is ready to send and has the
other one as its destination. -/
def Paired (s : Connections) (ep : RdmaRCEndPoint) (s' : Connections) (ep' : RdmaRCEndPoint) : Prop :=
  ep.connected = true ∧ ep'.connected = true ∧ List.Forall₂ (fun qp qp' =>
    qp.state = .rts ∧ qp.dest = some ⟨s'.gid, s'.lid, qp'.qpNum⟩ ∧
      qp'.state = .rts ∧ qp'.dest = some ⟨s.gid, s.lid, qp.qpNum⟩) ep.qpList ep'.qpList

theorem forall₂_both {α β : Type} {R : α → β → Prop} {S : β → α → Prop} {l : List α} {l' : List β}
    (h : List.Forall₂ R l l') (h' : List.Forall₂ S l' l) : List.Forall₂ (fun a b => R a b ∧ S b a) l l' := by
  induction h with
  | nil => exact .nil
  | cons hab _ ih =>
    cases h' with
    | cons hba h' => exact .cons ⟨hab, hba⟩ (ih h')

theorem Paired.of_reaches {s s' : Connections} {ep ep' : RdmaRCEndPoint} (h : ep.Reaches ⟨s'.gid, s'.lid, ep'.qpNum⟩)
    (h' : ep'.Reaches ⟨s.gid, s.lid, ep.qpNum⟩) : Paired s ep s' ep' := by
  refine ⟨h.1, h'.1, ?_⟩
  refine (forall₂_both (List.forall₂_map_right_iff.1 h.2) (List.forall₂_map_right_iff.1 h'.2)).imp ?_
  rintro qp qp' ⟨⟨hs, hd⟩, hs', hd'⟩
  exact ⟨hs, hd, hs', hd'⟩

/-- The first queue pair of an endpoint leads to one endpoint only. -/
theorem Paired.shared {s₁ s₂ s' : Connections} {ep₁ ep₂ ep' : RdmaRCEndPoint} (h₁ : Paired s₁ ep₁ s' ep')
    (h₂ : Paired s₂ ep₂ s' ep') : s₁.gid = s₂.gid ∧ ∃ num, num ∈ ep₁.qpNum ∧ num ∈ ep₂.qpNum := by
  obtain ⟨-, -, h₁⟩ := h₁
  obtain ⟨-, -, h₂⟩ := h₂
  cases hlist : ep'.qpList with
  | nil => exact absurd hlist ep'.qpList_ne
  | cons qp' qps' =>
    rw [hlist] at h₁ h₂
    obtain ⟨qp₁, qps₁, ⟨-, -, -, hd₁⟩, -, hl₁⟩ := List.forall₂_cons_right_iff.1 h₁
    obtain ⟨qp₂, qps₂, ⟨-, -, -, hd₂⟩, -, hl₂⟩ := List.forall₂_cons_right_iff.1 h₂
    have hdest := Option.some.inj (hd₁.symm.trans hd₂)
    refine ⟨congrArg Destination.dgid hdest, qp₁.qpNum, ?_, ?_⟩
    · simp [RdmaRCEndPoint.qpNum, hl₁]
    · rw [show qp₁.qpNum = qp₂.qpNum from congrArg Destination.destQpNum hdest]
      simp [RdmaRCEndPoint.qpNum, hl₂]

section runs

variable {ι : Type} [DecidableEq ι] {resolve : String → Option ι} {connections : ι → Connections}
  {s : Handshake.State ι Connections} {es : List (Handshake.Event ι Device)}

/-- In every run of any number of nodes, with any losses and failures: an endpoint of a session is paired with one of
the node that its peer name stands for; no endpoint is paired with two, if the nodes have gids of their own; and an
endpoint that a server has connected leads to the queue pairs of one that asked for this server. -/
theorem sessions_are_paired (hnew : ∀ i x, (connections i).endpointMap x = none)
    (hrun : Runs.Run (Handshake.step Connections.protocol resolve) Handshake.ok (Handshake.start connections) es s) :
    (∀ i, ∀ peer ∈ (s.node i).sessions, ∃ j n ep ep', resolve peer = some j ∧
        (s.node i).protocol.endpointMap peer = some ep ∧
        (s.node j).protocol.endpointMap (Handshake.serverPeer n) = some ep' ∧
        Paired (s.node i).protocol ep (s.node j).protocol ep') ∧
      (Function.Injective (fun i => (connections i).gid) →
        ∀ i x i' x' j y ep₁ ep₂ ep', (s.node i).protocol.endpointMap x = some ep₁ →
          (s.node i').protocol.endpointMap x' = some ep₂ → (s.node j).protocol.endpointMap y = some ep' →
          Paired (s.node i).protocol ep₁ (s.node j).protocol ep' →
          Paired (s.node i').protocol ep₂ (s.node j).protocol ep' → i = i' ∧ x = x') ∧
      ∀ j n ep', (s.node j).protocol.endpointMap (Handshake.serverPeer n) = some ep' → ep'.connected = true →
        ∃ i peer ep, resolve peer = some j ∧ (s.node i).protocol.endpointMap peer = some ep ∧
          ep'.Reaches ⟨(s.node i).protocol.gid, (s.node i).protocol.lid, ep.qpNum⟩ := by
  have hinv : Handshake.Inv resolve view s := by
    refine .run Connections.lawful (fun i x ep hep => ?_) hrun
    rw [hnew] at hep
    cases hep
  have hnumbered : ∀ i, Connections.Numbered (connections i).gid (s.node i).protocol := by
    refine Handshake.Kept.run (fun i => Connections.kept_numbered (connections i).gid) (fun i => ?_) hrun
    refine ⟨rfl, fun x ep hep => ?_, fun x y ep ep' num hep => ?_⟩
    · rw [hnew] at hep
      cases hep
    · rw [hnew] at hep
      cases hep
  refine ⟨fun i peer hpeer => ?_, fun hgid i x i' x' j y ep₁ ep₂ ep' h₁ h₂ _ hp₁ hp₂ => ?_,
    fun j n ep' hep' hconnected => ?_⟩
  · obtain ⟨-, j, n, a, b, hj, hacc, hown, ep, hep, hreaches⟩ := hinv.sessions i peer hpeer
    obtain ⟨ep₀, hep₀, rfl⟩ := Option.map_eq_some_iff.1 hown
    obtain rfl := Option.some.inj (hep.symm.trans hep₀)
    obtain ⟨ep', hep', rfl⟩ := Option.map_eq_some_iff.1 hacc.own
    obtain ⟨ep'₀, hep'₀, hreaches'⟩ := hacc.connectedTo
    obtain rfl := Option.some.inj (hep'.symm.trans hep'₀)
    exact ⟨j, n, ep, ep', hj, hep, hep', .of_reaches hreaches hreaches'⟩
  · obtain ⟨hsame, num, hnum₁, hnum₂⟩ := hp₁.shared hp₂
    obtain rfl : i = i' := by
      rw [(hnumbered i).gid, (hnumbered i').gid] at hsame
      exact hgid hsame
    exact ⟨rfl, (hnumbered i).distinct x x' ep₁ ep₂ num h₁ h₂ hnum₁ hnum₂⟩
  · rcases hinv.served j n with hidle | ⟨a, i, peer, ⟨ep₀, hep₀, hreaches⟩, hpeer, hown⟩
    · cases (hidle ep' hep').symm.trans hconnected
    · obtain rfl := Option.some.inj (hep'.symm.trans hep₀)
      obtain ⟨ep, hep, rfl⟩ := Option.map_eq_some_iff.1 hown
      exact ⟨i, peer, ep, hpeer, hep, hreaches⟩

end runs

/-- Two nodes with two queue pairs for each endpoint. -/
def sampleNodes (i : Bool) : Connections :=
  .construct 1 ⟨List.replicate 16 (if i then 1 else 0), List.length_replicate⟩ 2

def sampleResolve (peer : String) : Option Bool :=
  if peer = "a:1" then some false else if peer = "b:1" then some true else none

/-- A device with new queue pairs, and no failures. -/
def sampleDevice (created : List UInt32) : Device := ⟨created, fun _ _ => true, fun _ _ => 0, true, 0⟩

/-- The first call of `a` to `b` is served and given up; meanwhile `b` calls `a`. -/
def sampleHandshakes : List (Handshake.Event Bool Device) :=
  [.startListener false, .startListener true, .request false "b:1" (sampleDevice [1, 2]) true,
   .accept 0 (sampleDevice [1, 2]) (sampleDevice []), .giveUp false "b:1",
   .request true "a:1" (sampleDevice [3, 4]) true,
   .request false "b:1" (sampleDevice []) true, .accept 2 (sampleDevice [5, 6]) (sampleDevice []),
   .accept 1 (sampleDevice [3, 4]) (sampleDevice []), .finish false "b:1" (sampleDevice []),
   .finish true "a:1" (sampleDevice [])]

/-- After a call that was lost, both nodes have a session with the other, and the endpoint of `a` is paired with the
second one that `b` has made for it. -/
theorem sessions_are_paired_both_ways :
    Function.Injective (fun i => (sampleNodes i).gid) ∧
    ∃ s, Runs.Run (Handshake.step Connections.protocol sampleResolve) Handshake.ok
      (Handshake.start sampleNodes) sampleHandshakes s ∧
    (∃ ep ep', (s.node false).protocol.endpointMap "b:1" = some ep ∧
      (∃ n, (s.node true).protocol.endpointMap (Handshake.serverPeer n) = some ep') ∧
      Paired (s.node false).protocol ep (s.node true).protocol ep') ∧
    ∃ ep ep', (s.node true).protocol.endpointMap "a:1" = some ep ∧
      (∃ n, (s.node false).protocol.endpointMap (Handshake.serverPeer n) = some ep') ∧
      Paired (s.node true).protocol ep (s.node false).protocol ep' := by
  obtain ⟨s, hrun, ht⟩ := Runs.exists_run_of_exec (Handshake.step Connections.protocol sampleResolve) Handshake.ok
    (Handshake.start sampleNodes) sampleHandshakes
    (fun s => decide ("b:1" ∈ (s.node false).sessions ∧ "a:1" ∈ (s.node true).sessions)) (by decide +kernel)
  obtain ⟨hb, ha⟩ := of_decide_eq_true ht
  refine ⟨by decide, ?_⟩
  obtain ⟨hpaired, -⟩ := sessions_are_paired (fun i x => rfl) hrun
  obtain ⟨j, n, ep, ep', hj, hep, hep', hp⟩ := hpaired false "b:1" hb
  obtain ⟨j1, n1, ep1, ep1', hj1, hep1, hep1', hp1⟩ := hpaired true "a:1" ha
  cases hj
  cases hj1
  exact ⟨s, hrun, ⟨ep, ep', hep, ⟨n, hep'⟩, hp⟩, ep1, ep1', hep1, ⟨n1, hep1'⟩, hp1⟩

end RapidTransfer.Reliable
