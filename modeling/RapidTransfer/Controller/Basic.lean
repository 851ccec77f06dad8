/-
The controller (`controller.cpp`): node ids for peers and multicast groups, and the two ways a
session number is found, from a source address (`findSession` of a received packet) and from a name
(`findSession` of a local call). A session number is `node_id * 256 + session`.

Node ids and session numbers are natural numbers, and `none` is the source's `-1`. The verbs behind
`RdmaMulticastContext::construct` are an argument: whether the group could be set up.
-/
import Mathlib.Data.List.AList
import Mathlib.Data.List.Sort
import Mathlib.Tactic

namespace RapidTransfer

/-- `NodeAddress`: a 16-byte gid and a queue pair number. -/
structure NodeAddress where
  gid : BitVec 128
  qpNum : Nat
  deriving DecidableEq, Repr

/-- What the controller reads of a `RdmaMulticastContext`. -/
structure RdmaMulticastContext where
  groupId : Nat
  replicas : List String
  deriving DecidableEq, Repr

structure Controller where
  /-- the device name contains `mlx5_bond` -/
  bond : Bool
  multicastContextMap : AList fun _ : String => RdmaMulticastContext
  nodeIdMap : AList fun _ : NodeAddress => Nat
  peerNameMap : String → Option Nat
  peerNameRevMap : Nat → Option String
  nextNodeId : Nat

namespace Controller

def construct (bond : Bool) : Controller :=
  { bond := bond, multicastContextMap := ∅, nodeIdMap := ∅, peerNameMap := fun _ => none,
    peerNameRevMap := fun _ => none, nextNodeId := 0 }

/-- `node_id_map_[p] = node_id` for every queue pair of the list. -/
def assign (gid : BitVec 128) (nodeId : Nat) (m : AList fun _ : NodeAddress => Nat) (qpNumList : List Nat) :
    AList fun _ : NodeAddress => Nat :=
  qpNumList.foldl (fun m qpNum => m.insert ⟨gid, qpNum⟩ nodeId) m

/-- The name and the id of a node point at each other. -/
def bind (c : Controller) (name : String) (nodeId : Nat) : Controller :=
  { c with
    peerNameMap := Function.update c.peerNameMap name (some nodeId)
    peerNameRevMap := Function.update c.peerNameRevMap nodeId (some name) }

def registerNode (c : Controller) (peerAddr : String) (gid : BitVec 128) (qpNumList : List Nat) : Controller :=
  bind
    { c with
      nextNodeId := c.nextNodeId + 1
      nodeIdMap := assign gid c.nextNodeId c.nodeIdMap qpNumList } peerAddr c.nextNodeId

/-- `joinMulticast`: a failed set-up has taken a node id already. -/
def joinMulticast (c : Controller) (multicastAddr : String) (constructed : Bool) : Int × Controller :=
  if multicastAddr ∈ c.multicastContextMap then (-1, c)
  else
    let nodeId := c.nextNodeId
    let c := { c with nextNodeId := c.nextNodeId + 1 }
    if !constructed then (-1, c)
    else
      (0, bind { c with multicastContextMap := c.multicastContextMap.insert multicastAddr ⟨nodeId, []⟩ }
        multicastAddr nodeId)

/-- `leaveMulticast` forgets the context; the names keep their ids. -/
def leaveMulticast (c : Controller) (multicastAddr : String) : Int × Controller :=
  if multicastAddr ∈ c.multicastContextMap then
    (0, { c with multicastContextMap := c.multicastContextMap.erase multicastAddr })
  else (-1, c)

def getMulticastContext (c : Controller) (multicastAddr : String) : Option RdmaMulticastContext :=
  c.multicastContextMap.lookup multicastAddr

/-- `getMulticastContext` of a session: the group that has the name of the session's node now. -/
def getMulticastContextOfSession (c : Controller) (session : Nat) : Option RdmaMulticastContext :=
  (c.peerNameRevMap (session / 256)).bind c.multicastContextMap.lookup

/-- `setReplicas` of a group's context, through the shared pointer. -/
def setReplicas (c : Controller) (multicastAddr : String) (g : RdmaMulticastContext) (replicas : List String) :
    Controller :=
  { c with multicastContextMap := c.multicastContextMap.insert multicastAddr { g with replicas := replicas } }

/-- `findSession` of a source address. On a bonded device the gid is ignored and every entry is
scanned; two matches fail the assertion (the outer `none`). -/
def findSessionOfAddress (c : Controller) (gid : BitVec 128) (qpNum session : Nat) : Option (Option Nat) :=
  if c.bond then
    match c.nodeIdMap.entries.filter (fun e => e.1.qpNum = qpNum) with
    | [] => some none
    | [e] => some (some (e.2 * 256 + session))
    | _ => none
  else some ((c.nodeIdMap.lookup ⟨gid, qpNum⟩).map fun id => id * 256 + session)

/-- `findSession` of a name. -/
def findSession (c : Controller) (peerAddr : String) (session : Nat) : Option Nat :=
  (c.peerNameMap peerAddr).map fun id => id * 256 + session

/-- The groups in the order of the `std::map`. -/
def groups (c : Controller) : List RdmaMulticastContext :=
  (c.multicastContextMap.entries.insertionSort fun a b => a.1 ≤ b.1).map (·.2)

/-- The search of `redirectMulticast`: the first group that lists the name and its position there,
or the position the last group's scan ended at. -/
def searchReplica (name : String) : List RdmaMulticastContext → Nat → Option Nat × Nat
  | [], index => (none, index)
  | g :: gs, _ =>
    if name ∈ g.replicas then (some g.groupId, g.replicas.idxOf name) else searchReplica name gs g.replicas.length

/-- `redirectMulticast`: the session an ACK belongs to and the index of its sender. The lookup of a
missing name would insert and read an empty string; a session found by `findSession` has a name. -/
def redirectMulticast (c : Controller) (sid : Nat) : Nat × Nat :=
  match searchReplica ((c.peerNameRevMap (sid / 256)).getD "") c.groups 0 with
  | (some groupId, index) => (groupId * 256 + sid % 256, index)
  | (none, index) => (sid, index)

/-! ## Lookups after an assignment -/

theorem lookup_assign (gid : BitVec 128) (nodeId : Nat) (a : NodeAddress) :
    ∀ (qpNumList : List Nat) (m : AList fun _ : NodeAddress => Nat),
      (assign gid nodeId m qpNumList).lookup a =
        if a.gid = gid ∧ a.qpNum ∈ qpNumList then some nodeId else m.lookup a
  | [], m => by simp [assign]
  | q :: qs, m => by
    show (assign gid nodeId (m.insert ⟨gid, q⟩ nodeId) qs).lookup a = _
    rw [lookup_assign gid nodeId a qs]
    by_cases ha : a = ⟨gid, q⟩
    · subst ha; simp
    · rw [AList.lookup_insert_ne ha]
      have hne : a.gid = gid → a.qpNum ≠ q := fun h1 h2 => ha (by cases a; cases h1; cases h2; rfl)
      by_cases hg : a.gid = gid
      · simp [hg, hne hg]
      · simp [hg]

@[simp] theorem bind_peerNameMap (c : Controller) (name : String) (id : Nat) (p : String) :
    (c.bind name id).peerNameMap p = if p = name then some id else c.peerNameMap p := by
  simp [bind, Function.update_apply]

@[simp] theorem bind_peerNameRevMap (c : Controller) (name : String) (id i : Nat) :
    (c.bind name id).peerNameRevMap i = if i = id then some name else c.peerNameRevMap i := by
  simp [bind, Function.update_apply]

@[simp] theorem bind_nodeIdMap (c : Controller) (name : String) (id : Nat) : (c.bind name id).nodeIdMap = c.nodeIdMap :=
  rfl

@[simp] theorem bind_multicastContextMap (c : Controller) (name : String) (id : Nat) :
    (c.bind name id).multicastContextMap = c.multicastContextMap := rfl

@[simp] theorem bind_nextNodeId (c : Controller) (name : String) (id : Nat) :
    (c.bind name id).nextNodeId = c.nextNodeId := rfl

@[simp] theorem bind_bond (c : Controller) (name : String) (id : Nat) : (c.bind name id).bond = c.bond := rfl

/-- A session found by a source address is one of a registered node. -/
theorem findSessionOfAddress_some {c : Controller} {gid : BitVec 128} {qpNum session sid : Nat}
    (h : c.findSessionOfAddress gid qpNum session = some (some sid)) :
    ∃ a id, c.nodeIdMap.lookup a = some id ∧ sid = id * 256 + session := by
  unfold findSessionOfAddress at h
  split at h
  · split at h
    · cases h
    · rename_i e he
      cases h
      have hmem : e ∈ c.nodeIdMap.entries := List.mem_of_mem_filter (he ▸ List.mem_singleton_self e)
      exact ⟨e.1, e.2, AList.mem_lookup_iff.2 hmem, rfl⟩
    · cases h
  · obtain ⟨id, hid, rfl⟩ := Option.map_eq_some_iff.1 (Option.some.inj h)
    exact ⟨_, id, hid, rfl⟩

/-- Everything `joinMulticast` can do. -/
theorem joinMulticast_cases (c : Controller) (name : String) (constructed : Bool) :
    (name ∈ c.multicastContextMap ∧ c.joinMulticast name constructed = (-1, c)) ∨
    (name ∉ c.multicastContextMap ∧ constructed = false ∧
      c.joinMulticast name constructed = (-1, { c with nextNodeId := c.nextNodeId + 1 })) ∨
    (name ∉ c.multicastContextMap ∧ constructed = true ∧
      c.joinMulticast name constructed =
        (0, bind { c with nextNodeId := c.nextNodeId + 1, multicastContextMap :=
          c.multicastContextMap.insert name ⟨c.nextNodeId, []⟩ } name c.nextNodeId)) := by
  unfold joinMulticast
  by_cases h : name ∈ c.multicastContextMap
  · exact .inl ⟨h, if_pos h⟩
  · rw [if_neg h]
    cases constructed with
    | false => exact .inr (.inl ⟨h, rfl, rfl⟩)
    | true => exact .inr (.inr ⟨h, rfl, rfl⟩)

/-! ## Node ids -/

/-- Ids are drawn from `next_node_id_`, and the name maps agree. -/
structure WF (c : Controller) : Prop where
  addr : ∀ a id, c.nodeIdMap.lookup a = some id → id < c.nextNodeId
  name : ∀ p id, c.peerNameMap p = some id → id < c.nextNodeId
  rev : ∀ p id, c.peerNameMap p = some id → c.peerNameRevMap id = some p
  revLt : ∀ id p, c.peerNameRevMap id = some p → id < c.nextNodeId
  addrRev : ∀ a id, c.nodeIdMap.lookup a = some id → ∃ p, c.peerNameRevMap id = some p

theorem construct_wf (bond : Bool) : (construct bond).WF :=
  ⟨by simp [construct], by simp [construct], by simp [construct], by simp [construct], by simp [construct]⟩

/-- Binding a name to a fresh id. -/
theorem WF.bind {c : Controller} (h : c.WF) {m : AList fun _ : String => RdmaMulticastContext}
    {ids : AList fun _ : NodeAddress => Nat} (name : String)
    (hids : ∀ a id, ids.lookup a = some id → id = c.nextNodeId ∨ c.nodeIdMap.lookup a = some id) :
    (Controller.bind { c with nextNodeId := c.nextNodeId + 1, multicastContextMap := m, nodeIdMap := ids } name
      c.nextNodeId).WF := by
  have hold : ∀ id p, c.peerNameRevMap id = some p → id ≠ c.nextNodeId := fun id p hr => (h.revLt id p hr).ne
  refine ⟨fun a id ha => ?_, fun p id hp => ?_, fun p id hp => ?_, fun id p hr => ?_, fun a id ha => ?_⟩
  · rcases hids a id ha with rfl | ha
    · exact Nat.lt_succ_self _
    · exact Nat.lt_succ_of_lt (h.addr a id ha)
  · simp only [bind_peerNameMap] at hp
    split at hp
    · cases hp; exact Nat.lt_succ_self _
    · exact Nat.lt_succ_of_lt (h.name p id hp)
  · simp only [bind_peerNameMap, bind_peerNameRevMap] at hp ⊢
    split at hp
    · rename_i hpn; cases hp; simp [hpn]
    · rw [if_neg (h.name p id hp).ne]; exact h.rev p id hp
  · simp only [bind_peerNameRevMap] at hr
    split at hr
    · rename_i hid; rw [hid]; exact Nat.lt_succ_self _
    · exact Nat.lt_succ_of_lt (h.revLt id p hr)
  · simp only [bind_peerNameRevMap]
    rcases hids a id ha with rfl | ha
    · exact ⟨name, by simp⟩
    · obtain ⟨p, hp⟩ := h.addrRev a id ha
      exact ⟨p, by rw [if_neg (hold id p hp)]; exact hp⟩

theorem registerNode_wf {c : Controller} (h : c.WF) (peerAddr : String) (gid : BitVec 128) (qpNumList : List Nat) :
    (c.registerNode peerAddr gid qpNumList).WF := by
  refine h.bind peerAddr fun a id ha => ?_
  rw [lookup_assign] at ha
  split at ha
  · cases ha; exact .inl rfl
  · exact .inr ha

theorem joinMulticast_wf {c : Controller} (h : c.WF) (name : String) (constructed : Bool) :
    (c.joinMulticast name constructed).2.WF := by
  obtain ⟨-, he⟩ | ⟨-, -, he⟩ | ⟨-, -, he⟩ := c.joinMulticast_cases name constructed
  · rw [he]; exact h
  · rw [he]
    exact ⟨fun a id ha => Nat.lt_succ_of_lt (h.addr a id ha), fun p id hp => Nat.lt_succ_of_lt (h.name p id hp), h.rev,
      fun id p hr => Nat.lt_succ_of_lt (h.revLt id p hr), h.addrRev⟩
  · rw [he]; exact h.bind name fun a id ha => .inr ha

end Controller

end RapidTransfer
