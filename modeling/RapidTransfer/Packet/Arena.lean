/-
The packet pool in memory. `PacketBufferPool` keeps its free packets in a list threaded through the packets themselves:
the first eight bytes of a free one hold the address of the next. The pool of `Packet/Handle`, a list of slots, is what
this list stands for: `construct`, `allocatePacket` and `freePacket` on memory do to the list what they do there
(`Represents`).

Clients write into the packets they hold and nowhere else, and a packet they hold is not in the list; so no write
touches a link, and the free packets and the ones in use are the slots of the arena, each of them once (`pool_correct`).
-/
import RapidTransfer.Lib.FreeList
import RapidTransfer.Lib.Runs
import RapidTransfer.Packet.Handle

namespace RapidTransfer

open FreeList

/-- The memory `numa_alloc_onnode` hands out for `max_packets` packets of `mtu_size` bytes: it is somewhere in the
address space, and not at the null address when there is any. A packet has room for a link. -/
structure Arena where
  mtuSize : Nat
  maxPackets : Nat
  base : Nat
  link_fits : 8 ≤ mtuSize
  base_pos : 0 < maxPackets → 0 < base
  fits : base + mtuSize * maxPackets ≤ 2 ^ 64

/-- The members of a pool that change, and the memory. -/
structure PoolMemory where
  mem : Nat → UInt8
  globalFreeBuffer : Nat

namespace Arena

/-- The address of a packet. -/
def slot (a : Arena) (index : Nat) : Nat := a.base + a.mtuSize * index

/-- The addresses of all packets. -/
def slots (a : Arena) : List Nat := (List.range a.maxPackets).map a.slot

/-- `construct`: each packet is linked to the one before it. -/
def construct (a : Arena) (mem : Nat → UInt8) : PoolMemory :=
  (List.range a.maxPackets).foldl (fun s index => ⟨setLink s.mem (a.slot index) s.globalFreeBuffer, a.slot index⟩)
    ⟨mem, 0⟩

end Arena

namespace PoolMemory

/-- `allocatePacket`, `none` for its error return. -/
def allocatePacket (s : PoolMemory) : Option (Nat × PoolMemory) :=
  if s.globalFreeBuffer = 0 then none
  else some (s.globalFreeBuffer, { s with globalFreeBuffer := link s.mem s.globalFreeBuffer })

/-- `freePacket`, `none` for its error return. -/
def freePacket (s : PoolMemory) (packetBuf : Nat) : Option PoolMemory :=
  if packetBuf = 0 then none
  else some ⟨setLink s.mem packetBuf s.globalFreeBuffer, packetBuf⟩

/-- The list in memory is the list of slots of a pool. -/
def Represents (a : Arena) (s : PoolMemory) (p : PacketBufferPool) : Prop :=
  Chain s.mem s.globalFreeBuffer (p.freeBuffers.map a.slot)

end PoolMemory

/-! ## Slots -/

namespace Arena

variable {a : Arena}

theorem slot_ne_zero (a : Arena) {index : Nat} (h : index < a.maxPackets) : a.slot index ≠ 0 := by
  have := a.base_pos (Nat.zero_lt_of_lt h)
  unfold slot
  omega

theorem slot_end_le (a : Arena) {index : Nat} (h : index < a.maxPackets) : a.slot index + a.mtuSize ≤ 2 ^ 64 := by
  have hle : a.mtuSize * (index + 1) ≤ a.mtuSize * a.maxPackets := Nat.mul_le_mul_left _ h
  have hfits := a.fits
  rw [Nat.mul_succ] at hle
  unfold slot
  omega

/-- Two packets do not overlap. -/
theorem slot_apart (a : Arena) {i j : Nat} (h : i ≠ j) :
    a.slot i + a.mtuSize ≤ a.slot j ∨ a.slot j + a.mtuSize ≤ a.slot i := by
  unfold slot
  rcases Nat.lt_or_gt_of_ne h with hlt | hgt
  · have hle : a.mtuSize * (i + 1) ≤ a.mtuSize * j := Nat.mul_le_mul_left _ hlt
    rw [Nat.mul_succ] at hle
    omega
  · have hle : a.mtuSize * (j + 1) ≤ a.mtuSize * i := Nat.mul_le_mul_left _ hgt
    rw [Nat.mul_succ] at hle
    omega

theorem slot_injective (a : Arena) : Function.Injective a.slot := by
  intro i j h
  by_contra hne
  have hfits := a.link_fits
  have := a.slot_apart hne
  omega

end Arena

/-! ## The list in memory and the list of slots -/

namespace PoolMemory

variable {a : Arena} {s s' : PoolMemory} {p : PacketBufferPool}

/-- The free packets are packets of the arena. -/
def InArena (a : Arena) (p : PacketBufferPool) : Prop := ∀ k ∈ p.freeBuffers, k < a.maxPackets

theorem Represents.head_lt (h : Represents a s p) (hin : InArena a p) : s.globalFreeBuffer < 2 ^ 64 := by
  unfold Represents at h
  cases hp : p.freeBuffers with
  | nil =>
    rw [hp] at h
    rw [h.head_eq_zero.2 rfl]
    decide
  | cons k rest =>
    rw [hp, List.map_cons] at h
    have hend := a.slot_end_le (hin k (by rw [hp]; exact List.mem_cons_self))
    have hfits := a.link_fits
    rw [h.pop.1]
    omega

/-- A packet that is not free goes to the front. -/
theorem Represents.free (h : Represents a s p) (hin : InArena a p) {k : Nat} (hk : k < a.maxPackets)
    (hnew : k ∉ p.freeBuffers) :
    Represents a ⟨setLink s.mem (a.slot k) s.globalFreeBuffer, a.slot k⟩ ⟨k :: p.freeBuffers⟩ := by
  refine Chain.push h (h.head_lt hin) (a.slot_ne_zero hk) ?_
  intro b hb
  obtain ⟨j, hj, rfl⟩ := List.mem_map.1 hb
  have hfits := a.link_fits
  have hne : j ≠ k := fun he => hnew (he ▸ hj)
  have := a.slot_apart hne
  omega

/-- `freePacket` of a packet in use. -/
theorem Represents.freePacket (h : Represents a s p) (hin : InArena a p) {k : Nat} (hk : k < a.maxPackets)
    (hnew : k ∉ p.freeBuffers) (hs : s.freePacket (a.slot k) = some s') : Represents a s' ⟨k :: p.freeBuffers⟩ := by
  rw [PoolMemory.freePacket, if_neg (a.slot_ne_zero hk)] at hs
  exact Option.some.inj hs ▸ h.free hin hk hnew

/-- `allocatePacket` fails when the list of slots is empty, and takes its first slot otherwise. -/
theorem Represents.allocatePacket (h : Represents a s p) :
    (p.freeBuffers = [] ∧ s.allocatePacket = none) ∨
      ∃ k rest s', p.freeBuffers = k :: rest ∧ s.allocatePacket = some (a.slot k, s') ∧
        Represents a s' ⟨rest⟩ := by
  unfold Represents at h
  cases hp : p.freeBuffers with
  | nil =>
    rw [hp] at h
    exact .inl ⟨rfl, if_pos (h.head_eq_zero.2 rfl)⟩
  | cons k rest =>
    rw [hp, List.map_cons] at h
    have hne : s.globalFreeBuffer ≠ 0 := fun h0 => List.cons_ne_nil _ _ (h.head_eq_zero.1 h0)
    obtain ⟨hhead, hrest⟩ := h.pop
    refine .inr ⟨k, rest, { s with globalFreeBuffer := link s.mem s.globalFreeBuffer }, rfl, ?_, ?_⟩
    · rw [PoolMemory.allocatePacket, if_neg hne, hhead]
    · rw [hhead]
      exact hrest

/-- A write into a packet that is not free. -/
theorem Represents.write (h : Represents a s p) {k offset : Nat} {bytes : List UInt8} (hnew : k ∉ p.freeBuffers)
    (hlen : offset + bytes.length ≤ a.mtuSize) :
    Represents a { s with mem := FreeList.write s.mem (a.slot k + offset) bytes } p := by
  refine Chain.frame h fun b hb => ?_
  obtain ⟨j, hj, rfl⟩ := List.mem_map.1 hb
  have hfits := a.link_fits
  have hne : j ≠ k := fun he => hnew (he ▸ hj)
  have := a.slot_apart hne
  exact link_write_of_disjoint s.mem (by omega)

/-- `construct` links the packets as the pool of slots lists them. -/
theorem represents_construct (a : Arena) (mem : Nat → UInt8) :
    Represents a (a.construct mem) (PacketBufferPool.construct a.maxPackets) := by
  -- after the first `n` turns of the loop
  have hloop : ∀ n, n ≤ a.maxPackets → Represents a
      ((List.range n).foldl (fun s index => ⟨setLink s.mem (a.slot index) s.globalFreeBuffer, a.slot index⟩) ⟨mem, 0⟩)
      ⟨(List.range n).reverse⟩ := by
    intro n
    induction n with
    | zero => exact fun _ => .nil
    | succ n ih =>
      intro hn
      rw [List.range_succ, List.foldl_append, List.reverse_append]
      refine (ih (by omega)).free (fun k hk => ?_) hn ?_
      · have := List.mem_range.1 (List.mem_reverse.1 hk)
        omega
      · intro hk
        exact absurd (List.mem_range.1 (List.mem_reverse.1 hk)) (lt_irrefl n)
  exact hloop a.maxPackets (le_refl _)

end PoolMemory

/-! ## Packets in use -/

/-- A pool and the packets its clients hold. -/
structure PoolUse where
  pool : PoolMemory
  allocated : List Nat

/-- What clients do. -/
inductive PoolOp where
  | allocatePacket
  | freePacket (packetBuf : Nat)
  | write (packetBuf offset : Nat) (bytes : List UInt8)

namespace PoolUse

def construct (a : Arena) (mem : Nat → UInt8) : PoolUse := ⟨a.construct mem, []⟩

def step (s : PoolUse) : PoolOp → Option PoolUse
  | .allocatePacket =>
    match s.pool.allocatePacket with
    -- the call fails and the client gets nothing
    | none => some s
    | some (packetBuf, pool) => some ⟨pool, packetBuf :: s.allocated⟩
  | .freePacket packetBuf => (s.pool.freePacket packetBuf).map fun pool => ⟨pool, s.allocated.erase packetBuf⟩
  | .write packetBuf offset bytes =>
    some { s with pool := { s.pool with mem := FreeList.write s.pool.mem (packetBuf + offset) bytes } }

/-- Clients free packets they hold, and write inside of them. -/
def Held (a : Arena) (s : PoolUse) : PoolOp → Prop
  | .allocatePacket => True
  | .freePacket packetBuf => packetBuf ∈ s.allocated
  | .write packetBuf offset bytes => packetBuf ∈ s.allocated ∧ offset + bytes.length ≤ a.mtuSize

instance (a : Arena) (s : PoolUse) (op : PoolOp) : Decidable (Held a s op) :=
  match op with
  | .allocatePacket => inferInstanceAs (Decidable True)
  | .freePacket packetBuf => inferInstanceAs (Decidable (packetBuf ∈ s.allocated))
  | .write packetBuf offset bytes =>
    inferInstanceAs (Decidable (packetBuf ∈ s.allocated ∧ offset + bytes.length ≤ a.mtuSize))

/-- Which packets are free and which are held: the list in memory is the one of the free packets, the clients hold the
others, and together these are the packets of the arena, each of them once. -/
structure Split (a : Arena) (s : PoolUse) (p : PacketBufferPool) (held : List Nat) : Prop where
  represents : PoolMemory.Represents a s.pool p
  allocated : s.allocated = held.map a.slot
  perm : (p.freeBuffers ++ held).Perm (List.range a.maxPackets)

variable {a : Arena} {s s' : PoolUse} {p : PacketBufferPool} {held : List Nat}

namespace Split

theorem nodup (h : Split a s p held) : (p.freeBuffers ++ held).Nodup :=
  h.perm.nodup_iff.2 List.nodup_range

theorem inArena (h : Split a s p held) : PoolMemory.InArena a p :=
  fun _ hk => List.mem_range.1 (h.perm.mem_iff.1 (List.mem_append_left _ hk))

theorem held_lt (h : Split a s p held) {k : Nat} (hk : k ∈ held) : k < a.maxPackets :=
  List.mem_range.1 (h.perm.mem_iff.1 (List.mem_append_right _ hk))

theorem not_free (h : Split a s p held) {k : Nat} (hk : k ∈ held) : k ∉ p.freeBuffers :=
  fun hfree => (List.nodup_append.1 h.nodup).2.2 k hfree k hk rfl

/-- A packet clients hold is a slot. -/
theorem exists_slot (h : Split a s p held) {packetBuf : Nat} (hmem : packetBuf ∈ s.allocated) :
    ∃ k ∈ held, a.slot k = packetBuf := by
  rw [h.allocated] at hmem
  exact List.mem_map.1 hmem

theorem allocate (h : Split a s p held) (hs : step s .allocatePacket = some s') :
    ∃ p' held', Split a s' p' held' := by
  rcases h.represents.allocatePacket with ⟨-, hnone⟩ | ⟨k, rest, pool, hp, hsome, hrep⟩
  · simp only [step, hnone, Option.some.injEq] at hs
    exact ⟨p, held, hs ▸ h⟩
  · simp only [step, hsome, Option.some.injEq] at hs
    subst hs
    refine ⟨⟨rest⟩, k :: held, hrep, ?_, ?_⟩
    · rw [List.map_cons, ← h.allocated]
    · -- the slot moves over the border of the two lists
      refine List.Perm.trans ?_ h.perm
      rw [hp]
      exact List.perm_middle

theorem free (h : Split a s p held) {packetBuf : Nat} (hmem : packetBuf ∈ s.allocated)
    (hs : step s (.freePacket packetBuf) = some s') : ∃ p' held', Split a s' p' held' := by
  obtain ⟨k, hk, rfl⟩ := h.exists_slot hmem
  obtain ⟨pool, hpool, rfl⟩ := Option.map_eq_some_iff.1 hs
  refine ⟨⟨k :: p.freeBuffers⟩, held.erase k, h.represents.freePacket h.inArena (h.held_lt hk) (h.not_free hk) hpool,
    ?_, ?_⟩
  · show s.allocated.erase (a.slot k) = (held.erase k).map a.slot
    rw [h.allocated, List.map_erase a.slot_injective]
  · refine List.Perm.trans ?_ h.perm
    exact List.perm_middle.symm.trans ((List.perm_cons_erase hk).symm.append_left _)

theorem write (h : Split a s p held) {packetBuf offset : Nat} {bytes : List UInt8} (hmem : packetBuf ∈ s.allocated)
    (hlen : offset + bytes.length ≤ a.mtuSize) (hs : step s (.write packetBuf offset bytes) = some s') :
    Split a s' p held := by
  obtain ⟨k, hk, rfl⟩ := h.exists_slot hmem
  cases hs
  exact ⟨h.represents.write (h.not_free hk) hlen, h.allocated, h.perm⟩

theorem step (h : Split a s p held) {op : PoolOp} (hok : Held a s op) (hs : PoolUse.step s op = some s') :
    ∃ p' held', Split a s' p' held' := by
  cases op with
  | allocatePacket => exact h.allocate hs
  | freePacket packetBuf => exact h.free hok hs
  | write packetBuf offset bytes => exact ⟨p, held, h.write hok.1 hok.2 hs⟩

/-- The free packets are those that are not held. -/
theorem free_iff (h : Split a s p held) (x : Nat) :
    x ∈ p.freeBuffers.map a.slot ↔ x ∈ a.slots ∧ x ∉ s.allocated := by
  rw [h.allocated]
  constructor
  · intro hx
    obtain ⟨k, hk, rfl⟩ := List.mem_map.1 hx
    refine ⟨List.mem_map_of_mem (List.mem_range.2 (h.inArena k hk)), ?_⟩
    rw [List.mem_map_of_injective a.slot_injective]
    exact fun hheld => h.not_free hheld hk
  · rintro ⟨hslot, hnot⟩
    obtain ⟨k, hk, rfl⟩ := List.mem_map.1 hslot
    rcases List.mem_append.1 (h.perm.mem_iff.2 hk) with hfree | hheld
    · exact List.mem_map_of_mem hfree
    · exact absurd (List.mem_map_of_mem hheld) hnot

/-- The pool is exhausted when clients hold as many packets as there are. -/
theorem exhausted_iff (h : Split a s p held) : s.pool.allocatePacket = none ↔ s.allocated.length = a.maxPackets := by
  have hlen : p.freeBuffers.length + s.allocated.length = a.maxPackets := by
    rw [h.allocated, List.length_map, ← List.length_append, h.perm.length_eq, List.length_range]
  rcases h.represents.allocatePacket with ⟨hp, hnone⟩ | ⟨k, rest, pool, hp, hsome, -⟩
  · rw [hp, List.length_nil] at hlen
    exact iff_of_true hnone (by omega)
  · rw [hp, List.length_cons] at hlen
    rw [hsome]
    exact iff_of_false (Option.some_ne_none _) (by omega)

end Split

theorem split_construct (a : Arena) (mem : Nat → UInt8) :
    Split a (construct a mem) (PacketBufferPool.construct a.maxPackets) [] where
  represents := PoolMemory.represents_construct a mem
  allocated := rfl
  perm := by
    rw [List.append_nil]
    exact List.reverse_perm _

/-- Two packets of the arena share no byte. -/
def Disjoint (a : Arena) (x y : Nat) : Prop := x + a.mtuSize ≤ y ∨ y + a.mtuSize ≤ x

/-- Whatever clients allocate, free and write into packets they hold, the list from `global_free_buffer_` on is finite
and has each slot that is not held once; the packets held are slots that share no byte; and `allocatePacket` fails when,
and only when, all packets are held. -/
theorem pool_correct {a : Arena} {mem : Nat → UInt8} {ops : List PoolOp} {s : PoolUse}
    (hrun : Runs.Run step (Held a) (construct a mem) ops s) :
    (∃ l, Chain s.pool.mem s.pool.globalFreeBuffer l ∧ l.Nodup ∧ ∀ x, x ∈ l ↔ x ∈ a.slots ∧ x ∉ s.allocated) ∧
      (∀ x ∈ s.allocated, x ∈ a.slots) ∧ s.allocated.Pairwise (Disjoint a) ∧
        (s.pool.allocatePacket = none ↔ s.allocated.length = a.maxPackets) := by
  have hinv : ∃ p held, Split a s p held :=
    hrun.invariant (P := fun s => ∃ p held, Split a s p held) ⟨_, _, split_construct a mem⟩
      (by rintro s op s' ⟨p, held, h⟩ hok hs; exact h.step hok hs)
  obtain ⟨p, held, h⟩ := hinv
  obtain ⟨hfree, hheld, -⟩ := List.nodup_append.1 h.nodup
  refine ⟨⟨p.freeBuffers.map a.slot, h.represents, hfree.map a.slot_injective, h.free_iff⟩, ?_, ?_, h.exhausted_iff⟩
  · intro x hx
    obtain ⟨k, hk, rfl⟩ := h.exists_slot hx
    exact List.mem_map_of_mem (List.mem_range.2 (h.held_lt hk))
  · rw [h.allocated]
    exact List.Pairwise.map a.slot (fun i j hne => a.slot_apart hne) hheld

/-- Two packets of 16 bytes: both are allocated and filled, a third call fails, and one comes back. -/
theorem pool_of_two_packets :
    ∃ s, Runs.Run step (Held ⟨16, 2, 4096, by decide, by decide, by decide⟩)
        (construct ⟨16, 2, 4096, by decide, by decide, by decide⟩ fun _ => 0)
        [.allocatePacket, .allocatePacket, .write 4096 0 (List.replicate 16 255), .allocatePacket, .freePacket 4112] s ∧
      s.allocated = [4096] ∧ (s.pool.allocatePacket = none ↔ [4096].length = 2) := by
  obtain ⟨s, hrun, hs⟩ := Runs.exists_run_of_exec step (Held ⟨16, 2, 4096, by decide, by decide, by decide⟩)
    (construct ⟨16, 2, 4096, by decide, by decide, by decide⟩ fun _ => 0)
    [.allocatePacket, .allocatePacket, .write 4096 0 (List.replicate 16 255), .allocatePacket, .freePacket 4112]
    (fun s => s.allocated == [4096]) (by decide +kernel)
  have hheld : s.allocated = [4096] := beq_iff_eq.1 hs
  have hcorrect := pool_correct hrun
  rw [hheld] at hcorrect
  exact ⟨s, hrun, hheld, hcorrect.2.2.2⟩

end PoolUse

end RapidTransfer
