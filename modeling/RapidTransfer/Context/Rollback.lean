/-
Calls of a `ContextMcast` that fail halfway. `registerLocalMemory` goes through the device and the connections of
every group, `joinMulticast` through the controller, the tables of the new group, and 128 packets of the pool. Both
stop at the first part that refuses and undo nothing, so a failed call leaves everything as it was only if its very
first part has failed (`failed_registration_iff`, `failed_join_iff`), and the rest of what it did makes every repetition
of the call fail as well.
-/
import RapidTransfer.Context.Registration
import Mathlib.Data.List.GetD

namespace RapidTransfer

/-! ## Registration -/

namespace MemoryRegion

/-- The table takes the range: nothing in it overlaps, and `ibv_reg_mr` succeeds. -/
def Takes (regions : List MemoryRegion) (addr length : Nat) (mr : Option Keys) : Prop :=
  (∀ entry ∈ regions, entry.overlaps addr length = false) ∧ mr ≠ none

theorem register_ne_none_iff {regions : List MemoryRegion} {addr length : Nat} {mr : Option Keys} :
    register regions addr length mr ≠ none ↔ Takes regions addr length mr := by
  constructor
  · intro h
    obtain ⟨regions', h⟩ := Option.ne_none_iff_exists'.1 h
    obtain ⟨hfree, k, rfl, -⟩ := register_some h
    exact ⟨hfree, Option.some_ne_none k⟩
  · rintro ⟨hfree, hmr⟩
    obtain ⟨k, rfl⟩ := Option.ne_none_iff_exists'.1 hmr
    have hany : regions.any (·.overlaps addr length) = false :=
      List.any_eq_false.2 fun entry he => by simp [hfree entry he]
    simp [register, hany]

/-- A range overlaps itself, also an empty one. -/
theorem overlaps_self (k : Keys) (addr length : Nat) : overlaps ⟨k, addr, length⟩ addr length = true := by
  simp [overlaps]

end MemoryRegion

open MemoryRegion (Takes)

theorem RdmaMulticastContext.registerMemoryRegion_zero_iff {addr length : Nat} :
    ∀ {connections : List (List MemoryRegion)} {mr : Nat → Option Keys},
      (registerMemoryRegion addr length connections mr).1 = 0 ↔
        ∀ i < connections.length, Takes (connections.getD i []) addr length (mr i)
  | [], mr => by
    refine iff_of_true rfl ?_
    rintro i ⟨⟩
  | regions :: rest, mr => by
    have hcons : (∀ i < (regions :: rest).length, Takes ((regions :: rest).getD i []) addr length (mr i)) ↔
        Takes regions addr length (mr 0) ∧ ∀ i < rest.length, Takes (rest.getD i []) addr length (mr (i + 1)) := by
      constructor
      · intro h
        exact ⟨h 0 (Nat.succ_pos _), fun i hi => h (i + 1) (Nat.succ_lt_succ hi)⟩
      · rintro ⟨h0, h⟩ (_ | i) hi
        · exact h0
        · exact h i (Nat.lt_of_succ_lt_succ hi)
    rw [hcons, ← @MemoryRegion.register_ne_none_iff regions addr length (mr 0)]
    unfold registerMemoryRegion
    cases MemoryRegion.register regions addr length (mr 0) with
    | none => simp
    | some regions' => simpa using registerMemoryRegion_zero_iff

theorem RdmaMulticastContext.registerMemoryRegion_ret {addr length : Nat} :
    ∀ {connections : List (List MemoryRegion)} {mr : Nat → Option Keys},
      (registerMemoryRegion addr length connections mr).1 = 0 ∨ (registerMemoryRegion addr length connections mr).1 = -1
  | [], _ => .inl rfl
  | regions :: rest, mr => by
    unfold registerMemoryRegion
    cases MemoryRegion.register regions addr length (mr 0) with
    | none => exact .inr rfl
    | some regions' => exact registerMemoryRegion_ret

namespace MemoryContext

/-- The tables of the device and of the groups are as before. -/
structure SameTables (s s' : MemoryContext) : Prop where
  device : s'.memoryRegionList = s.memoryRegionList
  groups : ∀ name ∈ s.controller.multicastContextMap, s'.connections name = s.connections name

/-- Every connection of every group takes the range. -/
def GroupsTake (s : MemoryContext) (addr length : Nat) (mrs : String → Nat → Option Keys) : Prop :=
  ∀ name ∈ s.controller.multicastContextMap, ∀ i < (s.connections name).length,
    Takes ((s.connections name).getD i []) addr length (mrs name i)

section register

variable {s : MemoryContext} {addr length : Nat} {mr : Option Keys} {mrs : String → Nat → Option Keys}

theorem registerGroups_zero_iff : ∀ {names : List String} {conns : String → List (List MemoryRegion)}, names.Nodup →
    ((registerGroups addr length mrs names conns).1 = 0 ↔
      ∀ name ∈ names, ∀ i < (conns name).length, Takes ((conns name).getD i []) addr length (mrs name i))
  | [], conns, _ => iff_of_true rfl (by rintro name ⟨⟩)
  | first :: names, conns, hnd => by
    obtain ⟨hfirst, hnd⟩ := List.nodup_cons.1 hnd
    rw [List.forall_mem_cons, ← RdmaMulticastContext.registerMemoryRegion_zero_iff]
    unfold registerGroups
    simp only
    by_cases hr : (RdmaMulticastContext.registerMemoryRegion addr length (conns first) (mrs first)).1 = 0
    · rw [if_neg (not_not.2 hr), registerGroups_zero_iff hnd, and_iff_right hr]
      -- the tables of the other groups have not been touched yet
      refine forall₂_congr fun name hname => ?_
      have hne : name ≠ first := fun he => hfirst (he ▸ hname)
      rw [Function.update_of_ne hne]
    · rw [if_pos hr]
      exact iff_of_false hr fun h => hr h.1

/-- What a call can do: the device refuses and nothing happens, or it takes the region for good. -/
theorem registerLocalMemory_cases (s : MemoryContext) (addr length : Nat) (mr : Option Keys)
    (mrs : String → Nat → Option Keys) :
    (¬ Takes s.memoryRegionList addr length mr ∧ s.registerLocalMemory addr length mr mrs = (-1, s)) ∨
    (Takes s.memoryRegionList addr length mr ∧
      (∃ k, (s.registerLocalMemory addr length mr mrs).2.memoryRegionList = s.memoryRegionList ++ [⟨k, addr, length⟩]) ∧
      ((s.registerLocalMemory addr length mr mrs).1 = 0 ↔ s.GroupsTake addr length mrs)) := by
  have htakes := @MemoryRegion.register_ne_none_iff s.memoryRegionList addr length mr
  unfold registerLocalMemory
  cases hdevice : MemoryRegion.register s.memoryRegionList addr length mr with
  | none =>
    rw [hdevice] at htakes
    exact .inl ⟨fun h => htakes.2 h rfl, rfl⟩
  | some regions =>
    rw [hdevice] at htakes
    obtain ⟨-, k, -, rfl⟩ := MemoryRegion.register_some hdevice
    refine .inr ⟨htakes.1 (Option.some_ne_none _), ⟨k, rfl⟩, ?_⟩
    rw [registerGroups_zero_iff s.controller.nodup_addresses]
    simp only [Controller.mem_addresses]
    rfl

/-- A range that the device has is refused, whatever the verbs do. -/
theorem registerLocalMemory_refused {k : Keys} (h : ⟨k, addr, length⟩ ∈ s.memoryRegionList) (mr : Option Keys)
    (mrs : String → Nat → Option Keys) : s.registerLocalMemory addr length mr mrs = (-1, s) := by
  obtain ⟨-, he⟩ | ⟨⟨hfree, -⟩, -⟩ := s.registerLocalMemory_cases addr length mr mrs
  · exact he
  · have := hfree _ h
    rw [MemoryRegion.overlaps_self] at this
    cases this

end register

/-- A call that fails changes no table, and succeeds when it is repeated with verbs that would have let it succeed the
first time, exactly when the device itself refuses the region or no group does. In the other case the region stays with
the device, and every repetition fails. -/
theorem failed_registration_iff (s : MemoryContext) (addr length : Nat) (mr : Option Keys)
    (mrs : String → Nat → Option Keys) :
    (((s.registerLocalMemory addr length mr mrs).1 ≠ 0 →
      SameTables s (s.registerLocalMemory addr length mr mrs).2 ∧
      ∀ mr' mrs', (s.registerLocalMemory addr length mr' mrs').1 = 0 →
        ((s.registerLocalMemory addr length mr mrs).2.registerLocalMemory addr length mr' mrs').1 = 0) ↔
      ¬ Takes s.memoryRegionList addr length mr ∨ s.GroupsTake addr length mrs) ∧
    (¬ (¬ Takes s.memoryRegionList addr length mr ∨ s.GroupsTake addr length mrs) → ∀ mr' mrs',
      ((s.registerLocalMemory addr length mr mrs).2.registerLocalMemory addr length mr' mrs').1 = -1) := by
  obtain ⟨hdevice, he⟩ | ⟨hdevice, ⟨k, hregions⟩, hret⟩ := s.registerLocalMemory_cases addr length mr mrs
  · constructor
    · refine iff_of_true ?_ (.inl hdevice)
      rintro -
      rw [he]
      exact ⟨⟨rfl, fun _ _ => rfl⟩, fun _ _ h => h⟩
    · exact fun hn => absurd (.inl hdevice) hn
  · constructor
    · rw [or_iff_right (not_not.2 hdevice), ← hret]
      constructor
      · intro h
        by_contra hne
        -- the device has grown by the region
        have hlen := congrArg List.length (hregions.symm.trans (h hne).1.device)
        simp at hlen
      · exact fun hz hne => absurd hz hne
    · rintro - mr' mrs'
      rw [registerLocalMemory_refused (hregions ▸ List.mem_append_right _ (List.mem_singleton_self _))]

/-- A group whose only connection refuses the region: the device keeps it, and the call can be repeated in vain. -/
theorem region_left_behind : ∃ s0 s, start (Core.smallConfig 512) 4096 (some .sample) = some s0 ∧
    Runs.Run step ok s0 [.joinMulticast "224.0.0.1" true fun _ => some .sample] s ∧
    (s.registerLocalMemory 100 2 (some .sample) fun _ _ => some .sample).1 = 0 ∧
    (s.registerLocalMemory 100 2 (some .sample) fun _ _ => none).1 = -1 ∧
    MemoryRegion.key s.memoryRegionList 100 = (0, 0) ∧
    MemoryRegion.key (s.registerLocalMemory 100 2 (some .sample) fun _ _ => none).2.memoryRegionList 100 = (1, 2) ∧
    ((s.registerLocalMemory 100 2 (some .sample) fun _ _ => none).2.registerLocalMemory 100 2 (some .sample)
      fun _ _ => some .sample).1 = -1 := by
  obtain ⟨s0, s, h0, hrun, ht⟩ := Runs.exists_run_of_start step ok (start (Core.smallConfig 512) 4096 (some .sample))
    [.joinMulticast "224.0.0.1" true fun _ => some .sample]
    (fun s : MemoryContext => decide (
      (s.registerLocalMemory 100 2 (some .sample) fun _ _ => some .sample).1 = 0 ∧
      (s.registerLocalMemory 100 2 (some .sample) fun _ _ => none).1 = -1 ∧
      MemoryRegion.key s.memoryRegionList 100 = (0, 0) ∧
      MemoryRegion.key (s.registerLocalMemory 100 2 (some .sample) fun _ _ => none).2.memoryRegionList 100 = (1, 2) ∧
      ((s.registerLocalMemory 100 2 (some .sample) fun _ _ => none).2.registerLocalMemory 100 2 (some .sample)
        fun _ _ => some .sample).1 = -1)) (by decide +kernel)
  exact ⟨s0, s, h0, hrun, of_decide_eq_true ht⟩

end MemoryContext

/-! ## Joining -/

/-- The receives that wait on the connections of a group. -/
structure GroupReceives where
  recvWrDepth : Nat → Int
  outstanding : List (Nat × Nat)

def GroupReceives.construct : GroupReceives := { recvWrDepth := fun _ => 0, outstanding := [] }

/-- `RdmaMulticastContext::postReceiveRequest` of one request; `accepted` tells whether `ibv_post_recv` takes it. The
return value counts a request that is refused, too. -/
def RdmaMulticastContext.postReceiveRequest (numConnections : Nat) (maxWrPerQp : Int) (r : GroupReceives)
    (packet connIndex : Nat) (accepted : Bool) : Option (Int × GroupReceives) :=
  if connIndex ≥ numConnections then some (-1, r)
  else
    let wrCount := min (maxWrPerQp - r.recvWrDepth connIndex) 1
    if wrCount = 0 then some (0, r)
    else if wrCount < 0 then none
    else if !accepted then some (wrCount, r)
    else
      some (wrCount,
        { recvWrDepth := Function.update r.recvWrDepth connIndex (r.recvWrDepth connIndex + 1)
          outstanding := r.outstanding ++ [(connIndex, packet)] })

theorem RdmaMulticastContext.postReceiveRequest_neg_iff {n : Nat} {maxWr ret : Int} {r r' : GroupReceives}
    {packet index : Nat} {accepted : Bool} (h : postReceiveRequest n maxWr r packet index accepted = some (ret, r')) :
    ret < 0 ↔ n ≤ index := by
  unfold postReceiveRequest at h
  split at h
  · rename_i hge
    cases h
    exact iff_of_true (by decide) hge
  · rename_i hge
    simp only at h
    split at h
    · cases h
      exact iff_of_false (by decide) hge
    · split at h
      · cases h
      · rename_i hpos
        have hret : ret = min (maxWr - r.recvWrDepth index) 1 := by
          split at h
          · cases h; rfl
          · cases h; rfl
        exact iff_of_false (hret ▸ hpos) hge

/-- A `MemoryContext` with `recv_handles_qp_index_map_` and the receives of its groups. -/
structure GroupContext extends MemoryContext where
  qpIndexMap : Nat → Option Nat
  receives : String → GroupReceives

namespace GroupContext

open RdmaMulticastContext (postReceiveRequest)
open RapidTransfer.Core (kNumReceiveHandles)

/-- `construct` has entered its own receive handles into the map. -/
def start (cfg : Core.Config) (arena : Nat) (mr : Option Keys) : Option GroupContext :=
  (MemoryContext.start cfg arena mr).map fun s =>
    let packets := (PacketBufferPool.construct cfg.maxPackets).freeBuffers.take kNumReceiveHandles
    { s with
      qpIndexMap := fun packet => (packets.idxOf? packet).map (· % cfg.numQp)
      receives := fun _ => .construct }

/-- What the verbs answer in a call of `joinMulticast`: whether the group is set up, the regions of its connections,
and which receives are taken. -/
structure Verbs where
  constructed : Bool
  mr : Nat → Option Keys
  accepted : Nat → Bool

/-- What the loop over the receive handles works on. -/
structure Posting where
  pool : PacketBufferPool
  qpIndexMap : Nat → Option Nat
  receives : GroupReceives

/-- The loop of `joinMulticast`, from handle `i` on. `submitMulticastRecvWR` reads the map before the packet is entered
there; reading leaves a zero. -/
def submitHandles (numConnections : Nat) (maxWrPerQp : Int) (accepted : Nat → Bool) (i : Nat) :
    List PacketHandle → Posting → Option (Int × List PacketHandle × Posting)
  | [], p => some (0, [], p)
  | h :: hs, p =>
    match p.pool.allocatePacket true with
    | none => some (-1, h :: hs, p)
    | some (h, pool) =>
      match h.packetBuf with
      | none => none
      | some packet =>
        let index := (p.qpIndexMap packet).getD 0
        match postReceiveRequest numConnections maxWrPerQp p.receives packet index (accepted i) with
        | none => none
        | some (ret, receives) =>
          if ret < 0 then some (ret, h :: hs, ⟨pool, Function.update p.qpIndexMap packet (some index), receives⟩)
          else
            (submitHandles numConnections maxWrPerQp accepted (i + 1) hs
              ⟨pool, Function.update p.qpIndexMap packet (some 0), receives⟩).map fun r => (r.1, h :: r.2.1, r.2.2)

/-- The state with the group's entries: its handles, its tables, and what the loop has done. -/
def entered (s : GroupContext) (c : Controller) (addr : String) (conns : List (List MemoryRegion))
    (handles : List PacketHandle) (p : Posting) : GroupContext :=
  { s with
    toContextMcast := ContextMcast.joined { s.toContextMcast with controller := c } addr handles p.pool
    connections := Function.update s.connections addr conns
    qpIndexMap := p.qpIndexMap
    receives := Function.update s.receives addr p.receives }

/-- `joinMulticast` after the controller has joined. -/
def enterGroup (s : GroupContext) (c : Controller) (addr : String) (v : Verbs) : Option (Int × GroupContext) :=
  let handles := ContextMcast.resizeHandles s.packetManager.raw ((s.multicastRecvInfoMap addr).getD [])
  let reg := RdmaMulticastContext.registerMemoryRegion s.arena s.capacity (List.replicate s.numQpPerEndpoint []) v.mr
  let p : Posting := ⟨s.packetManager.pool, s.qpIndexMap, .construct⟩
  if reg.1 ≠ 0 then some (reg.1, s.entered c addr reg.2 handles p)
  else
    (submitHandles s.numQpPerEndpoint s.endpointStore.maxWrDepth v.accepted 0 handles p).map fun r =>
      (r.1, s.entered c addr reg.2 r.2.1 r.2.2)

def joinMulticast (s : GroupContext) (addr : String) (v : Verbs) : Option (Int × GroupContext) :=
  let r := s.controller.joinMulticast addr v.constructed
  if r.1 ≠ 0 then some (r.1, { s with controller := r.2 }) else s.enterGroup r.2 addr v

/-! ### The loop over the handles -/

section loop

variable {n : Nat} {maxWr ret : Int} {accepted : Nat → Bool} {i : Nat} {p p' : Posting} {h : PacketHandle}
  {hs hs' : List PacketHandle}

/-- The queue pairs that the map names for the packets exist. -/
def Mapped (n : Nat) (qpIndexMap : Nat → Option Nat) (packets : List Nat) : Prop :=
  ∀ packet ∈ packets, (qpIndexMap packet).getD 0 < n

/-- One round: the pool is empty, or the packet's queue pair does not exist, or the packet is submitted. -/
theorem submitHandles_cons (hr : submitHandles n maxWr accepted i (h :: hs) p = some (ret, hs', p')) :
    (p.pool.freeBuffers = [] ∧ ret = -1 ∧ hs' = h :: hs ∧ p' = p) ∨
    ∃ packet rest, p.pool.freeBuffers = packet :: rest ∧
      ((n ≤ (p.qpIndexMap packet).getD 0 ∧ ret < 0) ∨
       ((p.qpIndexMap packet).getD 0 < n ∧ ∃ receives hs1,
          submitHandles n maxWr accepted (i + 1) hs ⟨⟨rest⟩, Function.update p.qpIndexMap packet (some 0), receives⟩ =
            some (ret, hs1, p') ∧ hs' = PacketHandle.setRawPacket (some packet) true :: hs1)) := by
  unfold submitHandles PacketBufferPool.allocatePacket at hr
  cases hfree : p.pool.freeBuffers with
  | nil =>
    rw [hfree] at hr
    cases hr
    exact .inl ⟨rfl, rfl, rfl, rfl⟩
  | cons packet rest =>
    refine .inr ⟨packet, rest, rfl, ?_⟩
    simp only [hfree, PacketHandle.setRawPacket] at hr
    split at hr
    · cases hr
    · rename_i ret1 receives hpost
      have hneg := RdmaMulticastContext.postReceiveRequest_neg_iff hpost
      split at hr
      · rename_i hlt
        cases hr
        exact .inl ⟨hneg.1 hlt, hlt⟩
      · rename_i hlt
        obtain ⟨⟨ret2, hs2, p2⟩, hrec, he⟩ := Option.map_eq_some_iff.1 hr
        cases he
        exact .inr ⟨not_le.1 fun hle => hlt (hneg.2 hle), receives, hs2, hrec, rfl⟩

theorem mapped_cons {m : Nat → Option Nat} {packet : Nat} {packets : List Nat} :
    Mapped n m (packet :: packets) ↔ (m packet).getD 0 < n ∧ Mapped n m packets :=
  List.forall_mem_cons

/-- Entering a packet under queue pair 0 changes nothing for the packets behind it. -/
theorem mapped_update {m : Nat → Option Nat} {packet : Nat} {packets : List Nat} (h : (m packet).getD 0 < n) :
    Mapped n (Function.update m packet (some 0)) packets ↔ Mapped n m packets := by
  refine forall₂_congr fun x _ => ?_
  by_cases hx : x = packet
  · subst hx
    rw [Function.update_self]
    exact iff_of_true (Nat.zero_lt_of_lt h) h
  · rw [Function.update_of_ne hx]

/-- The loop gets through when there are packets enough and the queue pairs of those it takes exist. -/
theorem submitHandles_zero_iff (hr : submitHandles n maxWr accepted i hs p = some (ret, hs', p')) :
    ret = 0 ↔ hs.length ≤ p.pool.freeBuffers.length ∧ Mapped n p.qpIndexMap (p.pool.freeBuffers.take hs.length) := by
  induction hs generalizing i p ret hs' p' with
  | nil =>
    cases hr
    refine iff_of_true rfl ⟨Nat.zero_le _, ?_⟩
    rintro x ⟨⟩
  | cons h hs ih =>
    obtain ⟨hfree, rfl, -⟩ | ⟨packet, rest, hfree, ⟨hbad, hneg⟩ | ⟨hgood, receives, hs1, hrec, -⟩⟩ :=
      submitHandles_cons hr
    · rw [hfree]
      exact iff_of_false (by decide) fun hle => Nat.not_succ_le_zero _ hle.1
    · rw [hfree]
      exact iff_of_false hneg.ne fun hle => absurd (hle.2 packet List.mem_cons_self) (not_lt.2 hbad)
    · rw [ih hrec, hfree, mapped_update hgood]
      refine and_congr Nat.succ_le_succ_iff.symm ?_
      exact (mapped_cons.trans (and_iff_right hgood)).symm

/-- As long as the queue pairs exist the loop is the one that only allocates. -/
theorem submitHandles_allocate (hr : submitHandles n maxWr accepted i hs p = some (ret, hs', p'))
    (hm : Mapped n p.qpIndexMap (p.pool.freeBuffers.take hs.length)) :
    ContextMcast.allocateHandles hs p.pool = (decide (ret = 0), hs', p'.pool) ∧ (ret = 0 ∨ ret = -1) := by
  induction hs generalizing i p ret hs' p' with
  | nil =>
    cases hr
    exact ⟨rfl, .inl rfl⟩
  | cons h hs ih =>
    unfold ContextMcast.allocateHandles PacketBufferPool.allocatePacket
    obtain ⟨hfree, rfl, rfl, rfl⟩ | ⟨packet, rest, hfree, ⟨hbad, -⟩ | ⟨hgood, receives, hs1, hrec, rfl⟩⟩ :=
      submitHandles_cons hr
    · rw [hfree]
      exact ⟨rfl, .inr rfl⟩
    · rw [hfree] at hm
      exact absurd (hm packet List.mem_cons_self) (not_lt.2 hbad)
    · rw [hfree] at hm ⊢
      obtain ⟨he, hret⟩ := ih hrec ((mapped_update hgood).2 (mapped_cons.1 hm).2)
      simp only at he
      simp only [he, true_and]
      exact hret

end loop

/-! ### The call -/

/-- Everything behind the set-up of the group succeeds: the connections take the arena, the pool has the packets, and
the queue pairs of those exist. -/
structure Finishes (s : GroupContext) (v : Verbs) : Prop where
  arena : ∀ i < s.numQpPerEndpoint, v.mr i ≠ none
  packets : kNumReceiveHandles ≤ s.packetManager.pool.freeBuffers.length
  queues : Mapped s.numQpPerEndpoint s.qpIndexMap (s.packetManager.pool.freeBuffers.take kNumReceiveHandles)

/-- What the call is to leave as it was: the group, the name maps, the receive handles and the free packets. -/
structure Undone (s s' : GroupContext) (addr : String) : Prop where
  group : s'.controller.getMulticastContext addr = s.controller.getMulticastContext addr
  peerName : s'.controller.peerNameMap = s.controller.peerNameMap
  peerNameRev : s'.controller.peerNameRevMap = s.controller.peerNameRevMap
  recvInfo : s'.multicastRecvInfoMap = s.multicastRecvInfoMap
  free : s'.packetManager.pool.freeBuffers = s.packetManager.pool.freeBuffers

theorem length_resizeHandles (raw : PacketHandle) (hs : List PacketHandle) :
    (ContextMcast.resizeHandles raw hs).length = kNumReceiveHandles := by
  simp only [ContextMcast.resizeHandles, List.length_append, List.length_take, List.length_replicate]
  omega

theorem registered_zero_iff {addr length n : Nat} {mr : Nat → Option Keys} :
    (RdmaMulticastContext.registerMemoryRegion addr length (List.replicate n []) mr).1 = 0 ↔ ∀ i < n, mr i ≠ none := by
  rw [RdmaMulticastContext.registerMemoryRegion_zero_iff, List.length_replicate]
  refine forall₂_congr fun i hi => ?_
  rw [List.getD_replicate _ hi]
  refine and_iff_right ?_
  rintro entry ⟨⟩

section join

variable {s s' : GroupContext} {c : Controller} {addr : String} {v : Verbs} {ret : Int}

theorem enterGroup_some (h : s.enterGroup c addr v = some (ret, s')) :
    s'.controller = c ∧ (ret = 0 ↔ Finishes s v) := by
  unfold enterGroup at h
  simp only at h
  split at h
  · rename_i hreg
    cases h
    refine ⟨rfl, iff_of_false hreg fun hf => hreg (registered_zero_iff.2 hf.arena)⟩
  · rename_i hreg
    obtain ⟨⟨ret1, hs, p⟩, hr, he⟩ := Option.map_eq_some_iff.1 h
    cases he
    have hz := submitHandles_zero_iff hr
    rw [length_resizeHandles] at hz
    refine ⟨rfl, hz.trans ?_⟩
    constructor
    · rintro ⟨hpackets, hqueues⟩
      exact ⟨registered_zero_iff.1 (not_not.1 hreg), hpackets, hqueues⟩
    · rintro ⟨-, hpackets, hqueues⟩
      exact ⟨hpackets, hqueues⟩

/-- What a call can do: nothing to an address that is joined; take a node id for a group that cannot be set up; or enter
the group. -/
theorem joinMulticast_cases (s : GroupContext) (addr : String) (v : Verbs) :
    (addr ∈ s.controller.multicastContextMap ∧ s.joinMulticast addr v = some (-1, s)) ∨
    (addr ∉ s.controller.multicastContextMap ∧ v.constructed = false ∧ s.joinMulticast addr v =
      some (-1, { s with controller := { s.controller with nextNodeId := s.controller.nextNodeId + 1 } })) ∨
    (addr ∉ s.controller.multicastContextMap ∧ v.constructed = true ∧ ∃ c : Controller,
      addr ∈ c.multicastContextMap ∧ s.joinMulticast addr v = s.enterGroup c addr v) := by
  unfold joinMulticast
  obtain ⟨hmem, he⟩ | ⟨hmem, hv, he⟩ | ⟨hmem, hv, he⟩ := s.controller.joinMulticast_cases addr v.constructed
  · refine .inl ⟨hmem, ?_⟩
    rw [he]
    rfl
  · refine .inr (.inl ⟨hmem, hv, ?_⟩)
    rw [he]
    rfl
  · refine .inr (.inr ⟨hmem, hv, (s.controller.joinMulticast addr v.constructed).2, ?_, ?_⟩)
    · rw [he]
      exact (AList.mem_insert _).2 (.inl rfl)
    · simp only [he, ne_eq, not_true_eq_false, if_false]

/-- The return value does not depend on the controller. -/
theorem enterGroup_ret (s : GroupContext) (c c' c0 : Controller) (addr : String) (v : Verbs) :
    (enterGroup { s with controller := c0 } c addr v).map Prod.fst = (s.enterGroup c' addr v).map Prod.fst := by
  unfold enterGroup
  simp only
  split
  · rfl
  · rw [Option.map_map, Option.map_map]
    rfl

/-- A group that could not be set up has cost a node id only: the call can be repeated. -/
theorem joinMulticast_again {n : Nat} {t : GroupContext} (h : s.joinMulticast addr v = some (0, t)) :
    ∃ t', joinMulticast { s with controller := { s.controller with nextNodeId := n } } addr v = some (0, t') := by
  obtain ⟨-, he⟩ | ⟨-, -, he⟩ | ⟨hmem, hv, c, -, he⟩ := s.joinMulticast_cases addr v
  · rw [he] at h
    cases h
  · rw [he] at h
    cases h
  · obtain ⟨hmem', -⟩ | ⟨-, hv', -⟩ | ⟨-, -, c', -, he'⟩ :=
      joinMulticast_cases { s with controller := { s.controller with nextNodeId := n } } addr v
    · exact absurd hmem' hmem
    · exact absurd (hv.symm.trans hv') (by decide)
    · have hret := enterGroup_ret s c' c { s.controller with nextNodeId := n } addr v
      rw [← he, h] at hret
      obtain ⟨⟨ret', t'⟩, ht', hz⟩ := Option.map_eq_some_iff.1 hret
      cases hz
      exact ⟨t', he'.trans ht'⟩

end join

/-- Unless the queue pair of a packet is missing, the call does to the rest of the context what it does in the model
that leaves the receives out. -/
theorem joinMulticast_memory (s s' : GroupContext) (addr : String) (v : Verbs) (ret : Int)
    (h : s.joinMulticast addr v = some (ret, s'))
    (hm : Mapped s.numQpPerEndpoint s.qpIndexMap (s.packetManager.pool.freeBuffers.take kNumReceiveHandles)) :
    s.toMemoryContext.joinMulticast addr v.constructed v.mr = (ret, s'.toMemoryContext) := by
  unfold joinMulticast at h
  unfold MemoryContext.joinMulticast ContextMcast.joinMulticast
  simp only at h ⊢
  split at h
  · rename_i hret
    cases h
    rw [if_pos hret, if_pos hret]
  · rename_i hret
    rw [if_neg hret, if_neg hret]
    unfold enterGroup at h
    simp only at h
    split at h
    · rename_i hreg
      cases h
      have hminus := RdmaMulticastContext.registerMemoryRegion_ret.resolve_left hreg
      simp only [hreg, decide_false, Bool.not_false, if_true]
      rw [hminus]
      rfl
    · rename_i hreg
      obtain ⟨⟨ret1, hs, p⟩, hr, he⟩ := Option.map_eq_some_iff.1 h
      cases he
      obtain ⟨ha, hret1⟩ := submitHandles_allocate hr (by rwa [length_resizeHandles])
      simp only at ha
      simp only [not_not.1 hreg, decide_true, Bool.not_true, ha]
      rcases hret1 with rfl | rfl
      · rfl
      · rfl

/-- A call that fails leaves the group, the names, the receive handles and the free packets as they were, and can
succeed later, exactly when the address was joined before, or the group could not be set up, or nothing behind that
fails. In the other case the address counts as joined, and every later call for it fails. -/
theorem failed_join_iff (s s' : GroupContext) (addr : String) (v : Verbs) (ret : Int)
    (h : s.joinMulticast addr v = some (ret, s')) :
    ((ret ≠ 0 → Undone s s' addr ∧
      ∀ w t, s.joinMulticast addr w = some (0, t) → ∃ t', s'.joinMulticast addr w = some (0, t')) ↔
      addr ∈ s.controller.multicastContextMap ∨ v.constructed = false ∨ Finishes s v) ∧
    (¬ (addr ∈ s.controller.multicastContextMap ∨ v.constructed = false ∨ Finishes s v) →
      ∀ w, s'.joinMulticast addr w = some (-1, s')) := by
  obtain ⟨hmem, he⟩ | ⟨hmem, hv, he⟩ | ⟨hmem, hv, c, hc, he⟩ := s.joinMulticast_cases addr v
  · rw [he] at h
    cases h
    constructor
    · refine iff_of_true ?_ (.inl hmem)
      rintro -
      exact ⟨⟨rfl, rfl, rfl, rfl, rfl⟩, fun w t ht => ⟨t, ht⟩⟩
    · exact fun hn => absurd (.inl hmem) hn
  · rw [he] at h
    cases h
    constructor
    · refine iff_of_true ?_ (.inr (.inl hv))
      rintro -
      exact ⟨⟨rfl, rfl, rfl, rfl, rfl⟩, fun w t ht => joinMulticast_again ht⟩
    · exact fun hn => absurd (.inr (.inl hv)) hn
  · rw [he] at h
    obtain ⟨hctrl, hret⟩ := enterGroup_some h
    rw [or_iff_right hmem, or_iff_right (by simp [hv]), ← hret]
    constructor
    · constructor
      · intro hundo
        by_contra hne
        -- the group that the call has entered is still there
        have hgroup := (hundo hne).1.group
        rw [hctrl, show s.controller.getMulticastContext addr = none from AList.lookup_eq_none.2 hmem] at hgroup
        exact AList.lookup_eq_none.1 hgroup hc
      · exact fun hz hne => absurd hz hne
    · rintro - w
      obtain ⟨-, hw⟩ | ⟨hmem', -⟩ | ⟨hmem', -⟩ := s'.joinMulticast_cases addr w
      · exact hw
      · exact absurd (hctrl ▸ hc) hmem'
      · exact absurd (hctrl ▸ hc) hmem'

/-- Running a call on the state after `construct`. -/
theorem exists_joined {o : Option GroupContext} {addr : String} {v : Verbs}
    {test : GroupContext → Int → GroupContext → Bool}
    (h : (o.any fun s => (s.joinMulticast addr v).any fun r => test s r.1 r.2) = true) :
    ∃ s ret s', o = some s ∧ s.joinMulticast addr v = some (ret, s') ∧ test s ret s' = true := by
  obtain ⟨s, hs, h⟩ := (Option.any_eq_true _ _).1 h
  obtain ⟨r, hr, ht⟩ := (Option.any_eq_true _ _).1 h
  exact ⟨s, r.1, r.2, hs, hr, ht⟩

/-- With 72 free packets the loop stops at the 73rd handle: the group is there, its name too, the packets are gone, and
a second call is refused. -/
theorem group_left_behind : ∃ s ret s', start (Core.smallConfig 200) 4096 (some .sample) = some s ∧
    s.joinMulticast "224.0.0.1" ⟨true, fun _ => some .sample, fun _ => true⟩ = some (ret, s') ∧ ret = -1 ∧
    s.controller.getMulticastContext "224.0.0.1" = none ∧ s'.controller.getMulticastContext "224.0.0.1" = some ⟨0, []⟩ ∧
    s.controller.peerNameMap "224.0.0.1" = none ∧ s'.controller.peerNameMap "224.0.0.1" = some 0 ∧
    s.multicastRecvInfoMap "224.0.0.1" = none ∧ s'.multicastRecvInfoMap "224.0.0.1" ≠ none ∧
    s.packetManager.pool.freeBuffers.length = 72 ∧ s'.packetManager.pool.freeBuffers = [] ∧
    (s'.joinMulticast "224.0.0.1" ⟨true, fun _ => some .sample, fun _ => true⟩).map Prod.fst = some (-1) := by
  obtain ⟨s, ret, s', hs, h, ht⟩ := @exists_joined (start (Core.smallConfig 200) 4096 (some .sample)) "224.0.0.1"
    ⟨true, fun _ => some .sample, fun _ => true⟩ (fun s ret s' => decide (ret = -1 ∧
      s.controller.getMulticastContext "224.0.0.1" = none ∧
        s'.controller.getMulticastContext "224.0.0.1" = some ⟨0, []⟩ ∧
      s.controller.peerNameMap "224.0.0.1" = none ∧ s'.controller.peerNameMap "224.0.0.1" = some 0 ∧
      s.multicastRecvInfoMap "224.0.0.1" = none ∧ s'.multicastRecvInfoMap "224.0.0.1" ≠ none ∧
      s.packetManager.pool.freeBuffers.length = 72 ∧ s'.packetManager.pool.freeBuffers = [] ∧
      (s'.joinMulticast "224.0.0.1" ⟨true, fun _ => some .sample, fun _ => true⟩).map Prod.fst = some (-1)))
    (by decide +kernel)
  exact ⟨s, ret, s', hs, h, of_decide_eq_true ht⟩

/-- A group that cannot be set up leaves nothing behind. -/
theorem group_not_set_up : ∃ s ret s', start (Core.smallConfig 200) 4096 (some .sample) = some s ∧
    s.joinMulticast "224.0.0.1" ⟨false, fun _ => none, fun _ => true⟩ = some (ret, s') ∧ ret = -1 ∧
    Undone s s' "224.0.0.1" := by
  obtain ⟨s, ret, s', hs, h, ht⟩ := @exists_joined (start (Core.smallConfig 200) 4096 (some .sample)) "224.0.0.1"
    ⟨false, fun _ => none, fun _ => true⟩ (fun _ ret _ => decide (ret = -1)) (by decide +kernel)
  have hret : ret = -1 := of_decide_eq_true ht
  have hundone := (failed_join_iff s s' _ _ ret h).1.2 (.inr (.inl rfl)) (by rw [hret]; decide)
  exact ⟨s, ret, s', hs, h, hret, hundone.1⟩

end GroupContext

end RapidTransfer
