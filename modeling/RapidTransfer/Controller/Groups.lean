/-
Multicast groups in the controller. Group ids and node ids are drawn from one counter, so no two groups
and no group and node share one (`Grouped`), and `redirectMulticast` leads from a peer to a group that
lists it and to the peer's own position there.
-/
import RapidTransfer.Controller.Basic

namespace RapidTransfer.Controller

/-! ## The search for a replica -/

theorem mem_groups {c : Controller} {g : RdmaMulticastContext} :
    g ∈ c.groups ↔ ∃ addr, c.multicastContextMap.lookup addr = some g := by
  unfold groups
  rw [List.mem_map]
  constructor
  · rintro ⟨e, he, rfl⟩
    exact ⟨e.1, AList.mem_lookup_iff.2 ((List.mem_insertionSort _).1 he)⟩
  · rintro ⟨addr, h⟩
    exact ⟨⟨addr, g⟩, (List.mem_insertionSort _).2 (AList.mem_lookup_iff.1 h), rfl⟩

/-- The group that is found lists the name, at the index that is returned. -/
theorem searchReplica_some {name : String} {id index : Nat} : ∀ {gs : List RdmaMulticastContext} {k : Nat},
    searchReplica name gs k = (some id, index) → ∃ g ∈ gs, g.groupId = id ∧ g.replicas[index]? = some name
  | [], k, h => by cases h
  | g :: gs, k, h => by
    unfold searchReplica at h
    split at h
    · rename_i hmem
      cases h
      exact ⟨g, List.mem_cons_self, rfl, List.getElem?_idxOf hmem⟩
    · obtain ⟨g', hg', hx⟩ := searchReplica_some h
      exact ⟨g', List.mem_cons_of_mem _ hg', hx⟩

/-- An ACK stays with the session it came on, or goes to a group that lists the peer. -/
theorem redirectMulticast_cases (c : Controller) (sid : Nat) :
    (c.redirectMulticast sid).1 = sid ∨
    ∃ addr g, c.multicastContextMap.lookup addr = some g ∧
      (c.redirectMulticast sid).1 = g.groupId * 256 + sid % 256 ∧
      g.replicas[(c.redirectMulticast sid).2]? = some ((c.peerNameRevMap (sid / 256)).getD "") := by
  unfold redirectMulticast
  rcases hs : searchReplica ((c.peerNameRevMap (sid / 256)).getD "") c.groups 0 with ⟨id | id, index⟩
  · exact .inl rfl
  · obtain ⟨g, hg, rfl, hi⟩ := searchReplica_some hs
    obtain ⟨addr, ha⟩ := mem_groups.1 hg
    exact .inr ⟨addr, g, ha, rfl, hi⟩

/-- The search of a sorted list ends at the least address whose group lists the name. -/
theorem searchReplica_first (name : String) : ∀ {es : List (Σ _ : String, RdmaMulticastContext)} (k : Nat),
    es.Pairwise (fun a b => a.1 ≤ b.1) → (∃ e ∈ es, name ∈ e.2.replicas) →
    ∃ e ∈ es, name ∈ e.2.replicas ∧ (∀ f ∈ es, name ∈ f.2.replicas → e.1 ≤ f.1) ∧
      searchReplica name (es.map (·.2)) k = (some e.2.groupId, e.2.replicas.idxOf name)
  | [], _, _, hex => by
    obtain ⟨e, he, -⟩ := hex
    cases he
  | a :: es, k, hs, hex => by
    obtain ⟨hle, hs⟩ := List.pairwise_cons.1 hs
    rw [List.map_cons]
    unfold searchReplica
    by_cases ha : name ∈ a.2.replicas
    · rw [if_pos ha]
      refine ⟨a, List.mem_cons_self, ha, fun f hf _ => ?_, rfl⟩
      rcases List.mem_cons.1 hf with rfl | hf
      · exact String.le_refl _
      · exact hle f hf
    · rw [if_neg ha]
      obtain ⟨f, hf, hname⟩ := hex
      have hf : f ∈ es := (List.mem_cons.1 hf).resolve_left fun h => ha (h ▸ hname)
      obtain ⟨e, he, hmem, hfirst, hsearch⟩ := searchReplica_first name a.2.replicas.length hs ⟨f, hf, hname⟩
      refine ⟨e, List.mem_cons_of_mem a he, hmem, fun f hf hn => ?_, hsearch⟩
      rcases List.mem_cons.1 hf with rfl | hf
      · exact absurd hn ha
      · exact hfirst f hf hn

/-- The ACK of a peer that some group lists goes to the group with the least address that does. -/
theorem redirectMulticast_first {c : Controller} {addr p : String} {g : RdmaMulticastContext} {sid : Nat}
    (hg : c.multicastContextMap.lookup addr = some g) (hp : p ∈ g.replicas)
    (hsid : c.peerNameRevMap (sid / 256) = some p) :
    ∃ b h, c.multicastContextMap.lookup b = some h ∧ p ∈ h.replicas ∧
      (∀ b' h', c.multicastContextMap.lookup b' = some h' → p ∈ h'.replicas → b ≤ b') ∧
      c.redirectMulticast sid = (h.groupId * 256 + sid % 256, h.replicas.idxOf p) := by
  have hsorted : (c.multicastContextMap.entries.insertionSort fun a b => a.1 ≤ b.1).Pairwise fun a b => a.1 ≤ b.1 := by
    have : Std.Total fun a b : Σ _ : String, RdmaMulticastContext => a.1 ≤ b.1 := ⟨fun a b => String.le_total a.1 b.1⟩
    have : IsTrans (Σ _ : String, RdmaMulticastContext) fun a b => a.1 ≤ b.1 := ⟨fun _ _ _ => String.le_trans⟩
    exact List.pairwise_insertionSort _ _
  have hentry : ∀ b h, c.multicastContextMap.lookup b = some h →
      ⟨b, h⟩ ∈ c.multicastContextMap.entries.insertionSort fun a b => a.1 ≤ b.1 :=
    fun b h hb => (List.mem_insertionSort _).2 (AList.mem_lookup_iff.1 hb)
  obtain ⟨e, he, hmem, hfirst, hsearch⟩ := searchReplica_first p 0 hsorted ⟨⟨addr, g⟩, hentry addr g hg, hp⟩
  refine ⟨e.1, e.2, AList.mem_lookup_iff.2 ((List.mem_insertionSort _).1 he), hmem,
    fun b' h' hb' hn => hfirst ⟨b', h'⟩ (hentry b' h' hb') hn, ?_⟩
  unfold redirectMulticast groups
  rw [hsid, Option.getD_some, hsearch]

/-! ## Ids of groups -/

theorem lookup_erase_some {m : AList fun _ : String => RdmaMulticastContext} {name addr : String}
    {g : RdmaMulticastContext} (h : (m.erase name).lookup addr = some g) : addr ≠ name ∧ m.lookup addr = some g := by
  by_cases ha : addr = name
  · subst ha; rw [AList.lookup_erase] at h; cases h
  · rw [AList.lookup_erase_ne ha] at h; exact ⟨ha, h⟩

/-- No two groups share an id, and ids are drawn from `next_node_id_`. -/
structure DistinctIds (c : Controller) : Prop where
  lt : ∀ addr g, c.multicastContextMap.lookup addr = some g → g.groupId < c.nextNodeId
  unique : ∀ a b g h, c.multicastContextMap.lookup a = some g → c.multicastContextMap.lookup b = some h →
    g.groupId = h.groupId → a = b

/-- Every group has an id of its own, and its address leads to it. -/
structure Grouped (c : Controller) : Prop where
  wf : c.WF
  lt : ∀ addr g, c.multicastContextMap.lookup addr = some g → g.groupId < c.nextNodeId
  unique : ∀ a b g h, c.multicastContextMap.lookup a = some g → c.multicastContextMap.lookup b = some h →
    g.groupId = h.groupId → a = b
  node : ∀ a id addr g, c.nodeIdMap.lookup a = some id → c.multicastContextMap.lookup addr = some g → id ≠ g.groupId
  named : ∀ addr g, c.multicastContextMap.lookup addr = some g → c.peerNameMap addr = some g.groupId

/-- The groups after a join. -/
theorem lookup_joined {m : AList fun _ : String => RdmaMulticastContext} {name addr : String}
    {g new : RdmaMulticastContext} (hg : (m.insert name new).lookup addr = some g) :
    (addr = name ∧ g = new) ∨ (addr ≠ name ∧ m.lookup addr = some g) := by
  by_cases ha : addr = name
  · subst ha
    rw [AList.lookup_insert] at hg
    cases hg
    exact .inl ⟨rfl, rfl⟩
  · rw [AList.lookup_insert_ne ha] at hg
    exact .inr ⟨ha, hg⟩

/-- A replaced list leaves the ids of the groups alone. -/
theorem lookup_setReplicas {c : Controller} {name addr : String} {g x : RdmaMulticastContext} {replicas : List String}
    (hg : c.multicastContextMap.lookup name = some g)
    (hx : (c.setReplicas name g replicas).multicastContextMap.lookup addr = some x) :
    ∃ y, c.multicastContextMap.lookup addr = some y ∧ y.groupId = x.groupId := by
  rcases lookup_joined hx with ⟨rfl, rfl⟩ | ⟨-, hx⟩
  · exact ⟨g, hg, rfl⟩
  · exact ⟨x, hx, rfl⟩

namespace DistinctIds

variable {c : Controller}

theorem construct (bond : Bool) : (Controller.construct bond).DistinctIds := by
  constructor
  · intro addr g h; simp [Controller.construct] at h
  · intro a b g g' h; simp [Controller.construct] at h

/-- A new group takes a new id, whether or not it can be set up. -/
theorem joinMulticast (h : c.DistinctIds) (name : String) (constructed : Bool) :
    (c.joinMulticast name constructed).2.DistinctIds := by
  obtain ⟨-, he⟩ | ⟨-, -, he⟩ | ⟨-, -, he⟩ := c.joinMulticast_cases name constructed
  · rw [he]; exact h
  · rw [he]; exact ⟨fun addr g hg => Nat.lt_succ_of_lt (h.lt addr g hg), h.unique⟩
  · rw [he]
    refine ⟨fun addr g hg => ?_, fun a b g g' hg hg' heq => ?_⟩
    · rcases lookup_joined hg with ⟨-, rfl⟩ | ⟨-, hg⟩
      · exact Nat.lt_succ_self _
      · exact Nat.lt_succ_of_lt (h.lt addr g hg)
    · rcases lookup_joined hg with ⟨ha, rfl⟩ | ⟨-, hold⟩
      · rcases lookup_joined hg' with ⟨hb, -⟩ | ⟨-, hold'⟩
        · exact ha.trans hb.symm
        · exact absurd heq (h.lt b g' hold').ne'
      · rcases lookup_joined hg' with ⟨-, rfl⟩ | ⟨-, hold'⟩
        · exact absurd heq (h.lt a g hold).ne
        · exact h.unique a b g g' hold hold' heq

/-- A map with groups that were there before, under their ids. -/
theorem of_groups (h : c.DistinctIds) {c' : Controller} (hnext : c.nextNodeId ≤ c'.nextNodeId)
    (hm : ∀ addr g, c'.multicastContextMap.lookup addr = some g →
      ∃ g', c.multicastContextMap.lookup addr = some g' ∧ g'.groupId = g.groupId) : c'.DistinctIds := by
  refine ⟨fun addr g hg => ?_, fun a b g g' hg hg' heq => ?_⟩
  · obtain ⟨x, hx, hid⟩ := hm addr g hg
    exact (hid ▸ h.lt addr x hx).trans_le hnext
  · obtain ⟨x, hx, hid⟩ := hm a g hg
    obtain ⟨y, hy, hid'⟩ := hm b g' hg'
    exact h.unique a b x y hx hy (hid.trans (heq.trans hid'.symm))

end DistinctIds

namespace Grouped

variable {c : Controller}

theorem distinct (h : c.Grouped) : c.DistinctIds := ⟨h.lt, h.unique⟩

theorem construct (bond : Bool) : (Controller.construct bond).Grouped := by
  obtain ⟨hlt, hunique⟩ := DistinctIds.construct bond
  refine ⟨construct_wf bond, hlt, hunique, ?_, ?_⟩
  · intro a id addr g h; simp [Controller.construct] at h
  · intro addr g h; simp [Controller.construct] at h

/-- A peer that does not take the name of a group. -/
theorem registerNode (h : c.Grouped) {p : String} (hp : p ∉ c.multicastContextMap) (gid : BitVec 128) (Q : List Nat) :
    (c.registerNode p gid Q).Grouped := by
  refine ⟨registerNode_wf h.wf p gid Q, fun addr g hg => Nat.lt_succ_of_lt (h.lt addr g hg), h.unique, ?_, ?_⟩
  · intro a id addr g ha hg
    have ha : (assign gid c.nextNodeId c.nodeIdMap Q).lookup a = some id := ha
    rw [lookup_assign] at ha
    split at ha
    · cases ha; exact (h.lt addr g hg).ne'
    · exact h.node a id addr g ha hg
  · intro addr g hg
    have hne : addr ≠ p := by
      rintro rfl
      exact hp (AList.lookup_isSome.1 (by rw [show c.multicastContextMap.lookup addr = some g from hg]; rfl))
    simp only [Controller.registerNode, bind_peerNameMap]
    rw [if_neg hne]
    exact h.named addr g hg

theorem joinMulticast (h : c.Grouped) (name : String) (constructed : Bool) :
    (c.joinMulticast name constructed).2.Grouped := by
  have hwf := joinMulticast_wf h.wf name constructed
  obtain ⟨hlt, hunique⟩ := h.distinct.joinMulticast name constructed
  obtain ⟨-, he⟩ | ⟨-, -, he⟩ | ⟨-, -, he⟩ := c.joinMulticast_cases name constructed
  · rw [he]; exact h
  · rw [he] at hwf hlt hunique ⊢
    exact ⟨hwf, hlt, hunique, h.node, h.named⟩
  · rw [he] at hwf hlt hunique ⊢
    refine ⟨hwf, hlt, hunique, fun a id addr g ha hg => ?_, fun addr g hg => ?_⟩
    · rcases lookup_joined hg with ⟨-, rfl⟩ | ⟨-, hg⟩
      · exact (h.wf.addr a id ha).ne
      · exact h.node a id addr g ha hg
    · rw [bind_peerNameMap]
      rcases lookup_joined hg with ⟨rfl, rfl⟩ | ⟨hne, hg⟩
      · exact if_pos rfl
      · rw [if_neg hne]; exact h.named addr g hg

/-- A map with groups that were there before, under their ids. -/
theorem of_groups (h : c.Grouped) {m : AList fun _ : String => RdmaMulticastContext}
    (hm : ∀ addr g, m.lookup addr = some g →
      ∃ g', c.multicastContextMap.lookup addr = some g' ∧ g'.groupId = g.groupId) :
    ({ c with multicastContextMap := m } : Controller).Grouped := by
  obtain ⟨hlt, hunique⟩ : DistinctIds { c with multicastContextMap := m } := h.distinct.of_groups (le_refl _) hm
  refine ⟨⟨h.wf.addr, h.wf.name, h.wf.rev, h.wf.revLt, h.wf.addrRev⟩, hlt, hunique, fun a id addr g ha hg => ?_,
    fun addr g hg => ?_⟩
  · obtain ⟨x, hx, hid⟩ := hm addr g hg
    exact hid ▸ h.node a id addr x ha hx
  · obtain ⟨x, hx, hid⟩ := hm addr g hg
    exact hid ▸ h.named addr x hx

theorem leaveMulticast (h : c.Grouped) (name : String) : (c.leaveMulticast name).2.Grouped := by
  unfold Controller.leaveMulticast
  split
  · exact h.of_groups fun addr g hg => ⟨g, (lookup_erase_some hg).2, rfl⟩
  · exact h

theorem setReplicas (h : c.Grouped) {name : String} {g : RdmaMulticastContext}
    (hg : c.multicastContextMap.lookup name = some g) (replicas : List String) :
    (c.setReplicas name g replicas).Grouped :=
  h.of_groups fun _ _ hx => lookup_setReplicas hg hx

end Grouped

end RapidTransfer.Controller
