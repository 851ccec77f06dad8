/-
Memory regions of a `ContextMcast`. A user region is registered with the device and with the groups that exist at
that moment; a group that is joined later registers the arena of the pool and nothing else, and answers `{0, 0}` for
every address of the region. So the two calls do not commute: a group knows a region exactly when it was joined
first (`key_found_iff`).
-/
import RapidTransfer.Context.Mcast
import RapidTransfer.Memory.Region

namespace RapidTransfer

/-! ## The connections of a group -/

namespace RdmaMulticastContext

/-- `registerMemoryRegion`: the connections before one that fails keep the region. -/
def registerMemoryRegion (addr length : Nat) :
    List (List MemoryRegion) → (Nat → Option Keys) → Int × List (List MemoryRegion)
  | [], _ => (0, [])
  | regions :: rest, mr =>
    match MemoryRegion.register regions addr length (mr 0) with
    | none => (-1, regions :: rest)
    | some regions' =>
      let r := registerMemoryRegion addr length rest fun i => mr (i + 1)
      (r.1, regions' :: r.2)

def key (connections : List (List MemoryRegion)) (addr : Nat) (connIndex : Int) : UInt32 × UInt32 :=
  if connIndex < 0 ∨ connIndex ≥ connections.length then (0, 0)
  else MemoryRegion.key (connections.getD connIndex.toNat []) addr

/-- Every connection has taken the region. -/
structure Registered (addr length : Nat) (mr : Nat → Option Keys) (old new : List (List MemoryRegion)) : Prop where
  length_eq : new.length = old.length
  regions : ∀ i < old.length, MemoryRegion.register (old.getD i []) addr length (mr i) = some (new.getD i [])

theorem registerMemoryRegion_ok {addr length : Nat} :
    ∀ {connections : List (List MemoryRegion)} {mr : Nat → Option Keys},
    (registerMemoryRegion addr length connections mr).1 = 0 →
      Registered addr length mr connections (registerMemoryRegion addr length connections mr).2
  | [], mr, _ => by
    constructor
    · rfl
    · rintro i hi
      cases hi
  | regions :: rest, mr, h => by
    unfold registerMemoryRegion at h ⊢
    cases hr : MemoryRegion.register regions addr length (mr 0) with
    | none => rw [hr] at h; cases h
    | some regions' =>
      rw [hr] at h
      obtain ⟨hlen, hregions⟩ := registerMemoryRegion_ok h
      constructor
      · exact congrArg (· + 1) hlen
      · rintro (_ | i) hi
        · exact hr
        · exact hregions i (Nat.lt_of_succ_lt_succ hi)

theorem key_of_lt {connections : List (List MemoryRegion)} {i : Nat} (hi : i < connections.length) (x : Nat) :
    key connections x i = MemoryRegion.key (connections.getD i []) x := by
  unfold key
  rw [if_neg (by omega), Int.toNat_natCast]

end RdmaMulticastContext

/-- The addresses of the groups in the order of the `std::map`. -/
def Controller.addresses (c : Controller) : List String :=
  (c.multicastContextMap.entries.insertionSort fun a b => a.1 ≤ b.1).map (·.1)

theorem Controller.mem_addresses {c : Controller} {name : String} :
    name ∈ c.addresses ↔ name ∈ c.multicastContextMap :=
  ((List.perm_insertionSort _ _).map _).mem_iff

theorem Controller.nodup_addresses (c : Controller) : c.addresses.Nodup :=
  ((List.perm_insertionSort _ _).map _).nodup_iff.2 c.multicastContextMap.nodupKeys

/-! ## The context -/

/-- A `ContextMcast` with the regions of its device and of the connections of its groups. -/
structure MemoryContext extends ContextMcast where
  numQpPerEndpoint : Nat
  arena : Nat
  capacity : Nat
  memoryRegionList : List MemoryRegion
  connections : String → List (List MemoryRegion)

namespace MemoryContext

open RdmaMulticastContext (Registered)

/-- `construct` registers the arena of the pool with the device. -/
def start (cfg : Core.Config) (arena : Nat) (mr : Option Keys) : Option MemoryContext :=
  (ContextMcast.start cfg).bind fun c =>
    (MemoryRegion.register [] arena (cfg.mtuSize * cfg.maxPackets) mr).map fun regions =>
      { c with
        numQpPerEndpoint := cfg.numQp, arena := arena, capacity := cfg.mtuSize * cfg.maxPackets
        memoryRegionList := regions, connections := fun _ => [] }

/-- `joinMulticast`: the connections of the new group get the arena. -/
def joinMulticast (s : MemoryContext) (addr : String) (constructed : Bool) (mr : Nat → Option Keys) :
    Int × MemoryContext :=
  let reg := RdmaMulticastContext.registerMemoryRegion s.arena s.capacity (List.replicate s.numQpPerEndpoint []) mr
  let r := s.toContextMcast.joinMulticast addr constructed (decide (reg.1 = 0))
  if (s.controller.joinMulticast addr constructed).1 ≠ 0 then (r.1, { s with toContextMcast := r.2 })
  else (r.1, { s with toContextMcast := r.2, connections := Function.update s.connections addr reg.2 })

/-- The loop of `registerLocalMemory` over the groups. -/
def registerGroups (addr length : Nat) (mrs : String → Nat → Option Keys) :
    List String → (String → List (List MemoryRegion)) → Int × (String → List (List MemoryRegion))
  | [], conns => (0, conns)
  | name :: names, conns =>
    let r := RdmaMulticastContext.registerMemoryRegion addr length (conns name) (mrs name)
    let conns := Function.update conns name r.2
    if r.1 ≠ 0 then (r.1, conns) else registerGroups addr length mrs names conns

def registerLocalMemory (s : MemoryContext) (addr length : Nat) (mr : Option Keys) (mrs : String → Nat → Option Keys) :
    Int × MemoryContext :=
  match MemoryRegion.register s.memoryRegionList addr length mr with
  | none => (-1, s)
  | some regions =>
    let r := registerGroups addr length mrs s.controller.addresses s.connections
    (r.1, { s with memoryRegionList := regions, connections := r.2 })

/-- `key` of the group with the address. -/
def key (s : MemoryContext) (name : String) (addr : Nat) (connIndex : Int) : UInt32 × UInt32 :=
  RdmaMulticastContext.key (s.connections name) addr connIndex

inductive Event
  | joinMulticast (addr : String) (constructed : Bool) (mr : Nat → Option Keys)
  | registerLocalMemory (addr length : Nat) (mr : Option Keys) (mrs : String → Nat → Option Keys)
  | other (e : ContextMcast.Event)

def step (s : MemoryContext) : Event → Option MemoryContext
  | .joinMulticast addr constructed mr => some (s.joinMulticast addr constructed mr).2
  | .registerLocalMemory addr length mr mrs => some (s.registerLocalMemory addr length mr mrs).2
  | .other e => (s.toContextMcast.step e).map fun c => { s with toContextMcast := c }

/-- The events that leave the set of groups as it is. -/
def keepsGroups : ContextMcast.Event → Bool
  | .joinMulticast .. => false
  | .leaveMulticast _ => false
  | _ => true

/-- Calls that succeed, and no group is left. -/
def ok (s : MemoryContext) : Event → Prop
  | .joinMulticast addr constructed mr => (s.joinMulticast addr constructed mr).1 = 0
  | .registerLocalMemory addr length mr mrs => (s.registerLocalMemory addr length mr mrs).1 = 0
  | .other e => keepsGroups e = true ∧ ContextMcast.ok s.toContextMcast e

instance (s : MemoryContext) : ∀ e, Decidable (ok s e)
  | .joinMulticast .. => inferInstanceAs (Decidable (_ = _))
  | .registerLocalMemory .. => inferInstanceAs (Decidable (_ = _))
  | .other _ => inferInstanceAs (Decidable (_ ∧ _))

/-! ## What an event can do -/

/-- A call that succeeds; in the rest of a context, no event changes the set of groups. -/
inductive Effect (s : MemoryContext) : Event → MemoryContext → Prop
  | joined {addr : String} {constructed : Bool} {mr : Nat → Option Keys} {c : ContextMcast}
      {conns : List (List MemoryRegion)} (hnew : addr ∉ s.controller.multicastContextMap)
      (hgroups : ∀ name, name ∈ c.controller.multicastContextMap ↔ name = addr ∨
        name ∈ s.controller.multicastContextMap)
      (hreg : Registered s.arena s.capacity mr (List.replicate s.numQpPerEndpoint []) conns) :
      Effect s (.joinMulticast addr constructed mr)
        { s with toContextMcast := c, connections := Function.update s.connections addr conns }
  | registered {addr length : Nat} {mr : Option Keys} {mrs : String → Nat → Option Keys}
      {regions : List MemoryRegion} {conns : String → List (List MemoryRegion)}
      (hdevice : MemoryRegion.register s.memoryRegionList addr length mr = some regions)
      (hgroups : ∀ name ∈ s.controller.multicastContextMap,
        Registered addr length (mrs name) (s.connections name) (conns name)) :
      Effect s (.registerLocalMemory addr length mr mrs) { s with memoryRegionList := regions, connections := conns }
  | other {e : ContextMcast.Event} {c : ContextMcast}
      (hgroups : ∀ name, name ∈ c.controller.multicastContextMap ↔ name ∈ s.controller.multicastContextMap) :
      Effect s (.other e) { s with toContextMcast := c }

theorem registerGroups_ok {addr length : Nat} {mrs : String → Nat → Option Keys} :
    ∀ {names : List String} {conns : String → List (List MemoryRegion)}, names.Nodup →
      (registerGroups addr length mrs names conns).1 = 0 → ∀ name,
        (name ∈ names → Registered addr length (mrs name) (conns name)
          ((registerGroups addr length mrs names conns).2 name)) ∧
        (name ∉ names → (registerGroups addr length mrs names conns).2 name = conns name)
  | [], conns, _, _, name => by
    constructor
    · rintro ⟨⟩
    · rintro -
      rfl
  | first :: names, conns, hnd, h, name => by
    obtain ⟨hfirst, hnd⟩ := List.nodup_cons.1 hnd
    unfold registerGroups at h ⊢
    simp only at h ⊢
    by_cases hr : (RdmaMulticastContext.registerMemoryRegion addr length (conns first) (mrs first)).1 = 0
    · rw [if_neg (not_not.2 hr)] at h ⊢
      obtain ⟨hin, hout⟩ := registerGroups_ok hnd h name
      constructor
      · rintro hname
        rcases List.mem_cons.1 hname with rfl | hname
        · rw [hout hfirst, Function.update_self]
          exact RdmaMulticastContext.registerMemoryRegion_ok hr
        · have hne : name ≠ first := fun he => hfirst (he ▸ hname)
          have := hin hname
          rwa [Function.update_of_ne hne] at this
      · rintro hname
        obtain ⟨hne, hname⟩ := List.ne_and_not_mem_of_not_mem_cons hname
        rw [hout hname, Function.update_of_ne hne]
    · rw [if_pos hr] at h
      exact absurd h hr

/-- A successful join: the controller joined, and the arena was registered. -/
theorem joinMulticast_ok {c : ContextMcast} {addr : String} {constructed registered : Bool}
    (h : (c.joinMulticast addr constructed registered).1 = 0) :
    (c.controller.joinMulticast addr constructed).1 = 0 ∧ registered = true := by
  unfold ContextMcast.joinMulticast at h
  simp only at h
  split at h
  · rename_i hne
    exact absurd h hne
  · rename_i hret
    constructor
    · exact not_not.1 hret
    · cases registered with
      | false => simp at h
      | true => rfl

theorem joinMulticast_controller (c : ContextMcast) (addr : String) (constructed registered : Bool) :
    (c.joinMulticast addr constructed registered).2.controller = (c.controller.joinMulticast addr constructed).2 := by
  obtain he | ⟨handles, pool, he⟩ := c.joinMulticast_cases addr constructed registered
  · rw [he]
  · rw [he]; rfl

/-- The groups of the controller after an event that keeps them. -/
theorem mem_groups_of_keeps {c c' : Controller} {e : ContextMcast.Event} (hs : ContextMcast.ControllerStep c e c')
    (he : keepsGroups e = true) (name : String) : name ∈ c'.multicastContextMap ↔ name ∈ c.multicastContextMap := by
  cases hs with
  | same => exact Iff.rfl
  | register => exact Iff.rfl
  | join => cases he
  | leave => cases he
  | @replicas addr peers g hg =>
    have hmem : addr ∈ c.multicastContextMap := AList.lookup_isSome.1 (Option.isSome_iff_exists.2 ⟨g, hg⟩)
    show name ∈ c.multicastContextMap.insert addr _ ↔ _
    rw [AList.mem_insert]
    constructor
    · rintro (rfl | h)
      · exact hmem
      · exact h
    · exact .inr

theorem effect_join {s : MemoryContext} {addr : String} {constructed : Bool} {mr : Nat → Option Keys}
    (hok : (s.joinMulticast addr constructed mr).1 = 0) :
    Effect s (.joinMulticast addr constructed mr) (s.joinMulticast addr constructed mr).2 := by
  unfold joinMulticast at hok ⊢
  simp only at hok ⊢
  split at hok
  · rename_i hne
    exact absurd (joinMulticast_ok hok).1 hne
  · rename_i hret
    rw [if_neg hret]
    obtain ⟨-, hreg⟩ := joinMulticast_ok hok
    have hctrl := joinMulticast_controller s.toContextMcast addr constructed true
    rw [hreg]
    obtain ⟨-, he⟩ | ⟨-, -, he⟩ | ⟨hnew, -, he⟩ := s.controller.joinMulticast_cases addr constructed
    · rw [he] at hret; simp at hret
    · rw [he] at hret; simp at hret
    · refine .joined hnew (fun name => ?_) (RdmaMulticastContext.registerMemoryRegion_ok (of_decide_eq_true hreg))
      rw [hctrl, he]
      exact AList.mem_insert _

theorem effect_register {s : MemoryContext} {addr length : Nat} {mr : Option Keys} {mrs : String → Nat → Option Keys}
    (hok : (s.registerLocalMemory addr length mr mrs).1 = 0) :
    Effect s (.registerLocalMemory addr length mr mrs) (s.registerLocalMemory addr length mr mrs).2 := by
  unfold registerLocalMemory at hok ⊢
  cases hdevice : MemoryRegion.register s.memoryRegionList addr length mr with
  | none => rw [hdevice] at hok; cases hok
  | some regions =>
    rw [hdevice] at hok
    refine .registered hdevice fun name hname => ?_
    exact (registerGroups_ok s.controller.nodup_addresses hok name).1 (Controller.mem_addresses.2 hname)

theorem effect {s s' : MemoryContext} {e : Event} (hok : ok s e) (hs : step s e = some s') : Effect s e s' := by
  cases e with
  | joinMulticast addr constructed mr => cases hs; exact effect_join hok
  | registerLocalMemory addr length mr mrs => cases hs; exact effect_register hok
  | other e =>
    obtain ⟨c, hc, rfl⟩ := Option.map_eq_some_iff.1 hs
    exact .other (mem_groups_of_keeps (ContextMcast.step_controller hc).1 hok.1)

/-! ## What a run keeps -/

section run

variable {s s' : MemoryContext} {e : Event} {name : String} {x i : Nat}

/-- Every group has its connections, and the arena is a region of the device. -/
structure Inv (s : MemoryContext) (n : Nat) : Prop where
  numQp : s.numQpPerEndpoint = n
  sized : ∀ name ∈ s.controller.multicastContextMap, (s.connections name).length = n
  arena : ∀ x, s.arena ≤ x → x < s.arena + s.capacity → MemoryRegion.Covers s.memoryRegionList x

theorem Inv.start {cfg : Core.Config} {arena : Nat} {mr : Option Keys} (h : start cfg arena mr = some s) :
    0 < cfg.numQp ∧ (∀ name, name ∉ s.controller.multicastContextMap) ∧ Inv s cfg.numQp := by
  obtain ⟨c, hc, h⟩ := Option.bind_eq_some_iff.1 h
  obtain ⟨regions, hr, rfl⟩ := Option.map_eq_some_iff.1 h
  obtain ⟨core, hcore, rfl⟩ := Option.map_eq_some_iff.1 hc
  obtain ⟨r, hpos, rfl⟩ := Option.map_eq_some_iff.1 hcore
  have hnone : ∀ name, name ∉ (Controller.construct cfg.bond).multicastContextMap := fun name => AList.notMem_empty name
  refine ⟨?_, hnone, rfl, fun name hname => absurd hname (hnone name), fun x hlo hhi => ?_⟩
  · by_contra hz
    rw [if_pos (by omega)] at hpos
    cases hpos
  · obtain ⟨k, -, hcov, -⟩ := MemoryRegion.key_register hr hlo hhi
    exact hcov

theorem Inv.step {n : Nat} (h : Inv s n) (hs : Effect s e s') : Inv s' n := by
  cases hs with
  | @joined addr constructed mr c conns hnew hgroups hreg =>
    refine ⟨h.numQp, fun name hname => ?_, h.arena⟩
    by_cases he : name = addr
    · subst he
      show (Function.update s.connections name conns name).length = n
      rw [Function.update_self, hreg.length_eq, List.length_replicate, h.numQp]
    · show (Function.update s.connections addr conns name).length = n
      rw [Function.update_of_ne he]
      exact h.sized name (((hgroups name).1 hname).resolve_left he)
  | registered hdevice hgroups =>
    refine ⟨h.numQp, fun name hname => (hgroups name hname).length_eq.trans (h.sized name hname), fun x hlo hhi => ?_⟩
    exact (MemoryRegion.covers_register hdevice (h.arena x hlo hhi)).1
  | other hgroups => exact ⟨h.numQp, fun name hname => h.sized name ((hgroups name).1 hname), h.arena⟩

/-- A group is there exactly when it was joined. -/
theorem joined_iff {s0 : MemoryContext} {es : List Event} (h0 : ∀ name, name ∉ s0.controller.multicastContextMap)
    (hrun : Runs.Run step ok s0 es s) (name : String) :
    name ∈ s.controller.multicastContextMap ↔ ∃ constructed mr, .joinMulticast name constructed mr ∈ es := by
  induction hrun with
  | nil =>
    constructor
    · exact fun h => absurd h (h0 name)
    · rintro ⟨constructed, mr, ⟨⟩⟩
  | @snoc es s s' e _ hok hs ih =>
    have hother : (∀ constructed mr, e ≠ .joinMulticast name constructed mr) →
        ((∃ constructed mr, .joinMulticast name constructed mr ∈ es ++ [e]) ↔
          ∃ constructed mr, .joinMulticast name constructed mr ∈ es) := by
      intro hne
      simp only [List.mem_append, List.mem_singleton]
      constructor
      · rintro ⟨constructed, mr, h | rfl⟩
        · exact ⟨constructed, mr, h⟩
        · exact absurd rfl (hne constructed mr)
      · rintro ⟨constructed, mr, h⟩
        exact ⟨constructed, mr, .inl h⟩
    cases effect hok hs with
    | @joined addr constructed mr c conns _ hgroups =>
      by_cases he : name = addr
      · subst he
        refine iff_of_true ((hgroups name).2 (.inl rfl)) ⟨constructed, mr, ?_⟩
        exact List.mem_append_right _ (List.mem_singleton_self _)
      · rw [hother (by rintro _ _ ⟨⟩; exact he rfl), ← ih]
        exact (hgroups name).trans (or_iff_right he)
    | registered => rw [hother (by rintro _ _ ⟨⟩), ← ih]
    | other hgroups => rw [hother (by rintro _ _ ⟨⟩), ← ih]; exact hgroups name

/-- The group is there, and the connection has the keys for the address. -/
structure Found (s : MemoryContext) (name : String) (i x : Nat) (k : Keys) : Prop where
  joined : name ∈ s.controller.multicastContextMap
  lt : i < (s.connections name).length
  covers : MemoryRegion.Covers ((s.connections name).getD i []) x
  key : MemoryRegion.key ((s.connections name).getD i []) x = (k.lkey, k.rkey)

theorem Found.step {k : Keys} (h : Found s name i x k) (hs : Effect s e s') : Found s' name i x k := by
  cases hs with
  | @joined addr constructed mr c conns hnew hgroups hreg =>
    have he : name ≠ addr := fun he => hnew (he ▸ h.joined)
    have hconn : Function.update s.connections addr conns name = s.connections name := Function.update_of_ne he _ _
    refine ⟨(hgroups name).2 (.inr h.joined), ?_, ?_, ?_⟩ <;> simp only [hconn]
    · exact h.lt
    · exact h.covers
    · exact h.key
  | registered hdevice hgroups =>
    obtain ⟨hlen, hregions⟩ := hgroups name h.joined
    obtain ⟨hcov, hkey⟩ := MemoryRegion.covers_register (hregions i h.lt) h.covers
    exact ⟨h.joined, hlen ▸ h.lt, hcov, hkey.trans h.key⟩
  | other hgroups => exact ⟨(hgroups name).2 h.joined, h.lt, h.covers, h.key⟩

/-- The device has the address, the arena does not, and neither does any connection of the group. -/
structure Missed (s : MemoryContext) (name : String) (x : Nat) : Prop where
  device : MemoryRegion.Covers s.memoryRegionList x
  arena : ¬ (s.arena ≤ x ∧ x < s.arena + s.capacity)
  connections : name ∈ s.controller.multicastContextMap → ∀ i < (s.connections name).length,
    ¬ MemoryRegion.Covers ((s.connections name).getD i []) x

theorem Missed.step (h : Missed s name x) (hs : Effect s e s') : Missed s' name x := by
  cases hs with
  | @joined addr constructed mr c conns hnew hgroups hreg =>
    refine ⟨h.device, h.arena, fun hname => ?_⟩
    show ∀ i < (Function.update s.connections addr conns name).length,
      ¬ MemoryRegion.Covers ((Function.update s.connections addr conns name).getD i []) x
    by_cases he : name = addr
    · -- the new group has the arena in every connection
      subst he
      rw [Function.update_self]
      intro i hi
      obtain ⟨-, k, -, hconn⟩ := MemoryRegion.register_some (hreg.regions i (hreg.length_eq ▸ hi))
      rw [hconn]
      rintro ⟨entry, hentry, hx⟩
      have hnil : (List.replicate s.numQpPerEndpoint ([] : List MemoryRegion)).getD i [] = [] := by
        rw [List.getD_eq_getElem?_getD, List.getElem?_replicate]
        split <;> rfl
      rw [hnil, List.nil_append, List.mem_singleton] at hentry
      subst hentry
      exact h.arena (of_decide_eq_true hx)
    · rw [Function.update_of_ne he]
      exact h.connections (((hgroups name).1 hname).resolve_left he)
  | registered hdevice hgroups =>
    refine ⟨(MemoryRegion.covers_register hdevice h.device).1, h.arena, fun hname i hi => ?_⟩
    obtain ⟨hlen, hregions⟩ := hgroups name hname
    have hi : i < (s.connections name).length := hlen ▸ hi
    exact MemoryRegion.not_covers_register (hregions i hi) hdevice h.device (h.connections hname i hi)
  | other hgroups => exact ⟨h.device, h.arena, fun hname => h.connections ((hgroups name).1 hname)⟩

end run

/-! ## The keys of a region -/

/-- The connection answers with the keys the region was registered with, and not with the pair for a miss. -/
def Answers (s : MemoryContext) (name : String) (i x : Nat) (mr : Option Keys) : Prop :=
  (∃ k, mr = some k ∧ s.key name x i = (k.lkey, k.rkey)) ∧ s.key name x i ≠ (0, 0)

theorem Found.answers {s : MemoryContext} {name : String} {i x : Nat} {k : Keys} (h : Found s name i x k) :
    Answers s name i x (some k) := by
  have hkey : s.key name x i = (k.lkey, k.rkey) := (RdmaMulticastContext.key_of_lt h.lt x).trans h.key
  refine ⟨⟨k, rfl, hkey⟩, ?_⟩
  rw [hkey]
  exact fun he => k.lkey_ne (congrArg Prod.fst he)

theorem Missed.not_answers {s : MemoryContext} {name : String} {i x : Nat} {mr : Option Keys} (h : Missed s name x)
    (hname : name ∈ s.controller.multicastContextMap) (hi : i < (s.connections name).length) :
    ¬ Answers s name i x mr := by
  rintro ⟨-, hne⟩
  apply hne
  exact (RdmaMulticastContext.key_of_lt hi x).trans (MemoryRegion.key_of_not_covers (h.connections hname i hi))

/-- In every run of successful calls without leaving: the connections of a group know the keys of a region that was
registered exactly when the group was joined before. There is a connection 0, the one that is asked by default. -/
theorem key_found_iff (cfg : Core.Config) (arena : Nat) (mr0 : Option Keys) (s0 s : MemoryContext) (es fs : List Event)
    (addr length : Nat) (mr : Option Keys) (mrs : String → Nat → Option Keys) (h0 : start cfg arena mr0 = some s0)
    (hrun : Runs.Run step ok s0 (es ++ .registerLocalMemory addr length mr mrs :: fs) s) (name : String)
    (hname : name ∈ s.controller.multicastContextMap) (x : Nat) (hlo : addr ≤ x) (hhi : x < addr + length) :
    0 < cfg.numQp ∧ ∀ i < cfg.numQp, (Answers s name i x (mrs name i) ↔
      ∃ constructed mr', .joinMulticast name constructed mr' ∈ es) := by
  obtain ⟨hpos, hnone, hinv⟩ := Inv.start h0
  obtain ⟨t, t', hes, hok, hs, hfs⟩ := hrun.split_at fs
  have ht : Inv t cfg.numQp := hes.invariant (P := fun s => Inv s cfg.numQp) hinv
    fun _ _ _ hx hok hs => hx.step (effect hok hs)
  refine ⟨hpos, fun i hi => ?_⟩
  rw [← joined_iff hnone hes name]
  cases effect hok hs with
  | @registered _ _ _ _ regions conns hdevice hgroups =>
    by_cases hjoin : name ∈ t.controller.multicastContextMap
    · -- the group takes the region with the device, and keeps it
      obtain ⟨hlen, hregions⟩ := hgroups name hjoin
      have hi : i < (t.connections name).length := ht.sized name hjoin ▸ hi
      obtain ⟨k, hk, hcov, hkey⟩ := MemoryRegion.key_register (hregions i hi) hlo hhi
      have htaken : Found { t with memoryRegionList := regions, connections := conns } name i x k :=
        ⟨hjoin, hlen ▸ hi, hcov, hkey⟩
      have hfound := hfs.invariant (P := fun s => Found s name i x k) htaken
        fun _ _ _ hx hok hs => hx.step (effect hok hs)
      rw [hk]
      exact iff_of_true hfound.answers hjoin
    · -- the group is joined after the region, with the arena only
      have hpassed : Missed { t with memoryRegionList := regions, connections := conns } name x := by
        refine ⟨?_, ?_, fun h => absurd h hjoin⟩
        · obtain ⟨k, -, hcov, -⟩ := MemoryRegion.key_register hdevice hlo hhi
          exact hcov
        · rintro ⟨hlo', hhi'⟩
          exact MemoryRegion.not_covers_of_register hdevice hlo hhi (ht.arena x hlo' hhi')
      have hmissed := hfs.invariant (P := fun s => Missed s name x) hpassed
        fun _ _ _ hx hok hs => hx.step (effect hok hs)
      have hs' : Inv s cfg.numQp := hrun.invariant (P := fun s => Inv s cfg.numQp) hinv
        fun _ _ _ hx hok hs => hx.step (effect hok hs)
      exact iff_of_false (hmissed.not_answers hname (hs'.sized name hname ▸ hi)) hjoin

/-- A region is registered and then a group is joined: the group has no key for the region. -/
theorem joined_after_region : ∃ s0 s, start (Core.smallConfig 512) 4096 (some .sample) = some s0 ∧
    Runs.Run step ok s0 [.registerLocalMemory 100 2 (some .sample) fun _ _ => some .sample,
      .joinMulticast "224.0.0.1" true fun _ => some .sample] s ∧
    "224.0.0.1" ∈ s.controller.multicastContextMap ∧ s.key "224.0.0.1" 100 0 = (0, 0) ∧
    s.key "224.0.0.1" 4096 0 = (1, 2) := by
  obtain ⟨s0, s, h0, hrun, ht⟩ := Runs.exists_run_of_start step ok (start (Core.smallConfig 512) 4096 (some .sample))
    [.registerLocalMemory 100 2 (some .sample) fun _ _ => some .sample,
      .joinMulticast "224.0.0.1" true fun _ => some .sample]
    (fun s : MemoryContext => decide ("224.0.0.1" ∈ s.controller.multicastContextMap ∧
      s.key "224.0.0.1" 100 0 = (0, 0) ∧ s.key "224.0.0.1" 4096 0 = (1, 2))) (by decide +kernel)
  exact ⟨s0, s, h0, hrun, of_decide_eq_true ht⟩

/-- The other order: the group has the keys. -/
theorem joined_before_region : ∃ s0 s, start (Core.smallConfig 512) 4096 (some .sample) = some s0 ∧
    Runs.Run step ok s0 [.joinMulticast "224.0.0.1" true fun _ => some .sample,
      .registerLocalMemory 100 2 (some .sample) fun _ _ => some .sample] s ∧
    Answers s "224.0.0.1" 0 101 (some .sample) := by
  obtain ⟨s0, s, h0, hrun, ht⟩ := Runs.exists_run_of_start step ok (start (Core.smallConfig 512) 4096 (some .sample))
    [.joinMulticast "224.0.0.1" true fun _ => some .sample,
      .registerLocalMemory 100 2 (some .sample) fun _ _ => some .sample]
    (fun s : MemoryContext => decide ("224.0.0.1" ∈ s.controller.multicastContextMap)) (by decide +kernel)
  have hiff := key_found_iff _ _ _ s0 s [.joinMulticast "224.0.0.1" true fun _ => some .sample] [] 100 2 _ _ h0 hrun
    "224.0.0.1" (of_decide_eq_true ht) 101 (by decide) (by decide)
  exact ⟨s0, s, h0, hrun, (hiff.2 0 hiff.1).2 ⟨true, _, List.mem_singleton_self _⟩⟩

end MemoryContext

end RapidTransfer
