/-
The table of memory regions behind `RdmaContext` and behind each connection of a `RdmaMulticastContext`: a region is
refused if it overlaps one that is there, and an address has the keys of the first region that contains it.

Addresses are natural numbers and a region does not wrap around. What `ibv_reg_mr` hands out is an argument, with
`none` for a null `ibv_mr`.
-/
import Mathlib.Tactic

namespace RapidTransfer

/-- The keys of an `ibv_mr`; the verbs do not hand out zero. -/
structure Keys where
  lkey : UInt32
  rkey : UInt32
  lkey_ne : lkey ≠ 0
  rkey_ne : rkey ≠ 0

/-- The keys of the regions in concrete runs. -/
def Keys.sample : Keys := ⟨1, 2, by decide, by decide⟩

/-- What is read of an `ibv_mr`. -/
structure MemoryRegion extends Keys where
  addr : Nat
  length : Nat

namespace MemoryRegion

def contains (entry : MemoryRegion) (addr : Nat) : Bool :=
  decide (entry.addr ≤ addr ∧ addr < entry.addr + entry.length)

/-- The test of `registerMemoryRegion` against a region that is there. -/
def overlaps (entry : MemoryRegion) (addr length : Nat) : Bool :=
  let startOverlapped := decide (entry.addr ≤ addr ∧ addr < entry.addr + entry.length)
  let endOverlapped := decide (entry.addr < addr + length ∧ addr + length ≤ entry.addr + entry.length)
  let covered := decide (addr ≤ entry.addr ∧ entry.addr + entry.length ≤ addr + length)
  startOverlapped || endOverlapped || covered

/-- `RdmaContext::registerMemoryRegion`, and the body of the loop of `RdmaMulticastContext`'s. -/
def register (regions : List MemoryRegion) (addr length : Nat) (mr : Option Keys) : Option (List MemoryRegion) :=
  if regions.any (·.overlaps addr length) then none
  else mr.map fun k => regions ++ [⟨k, addr, length⟩]

/-- The keys of the first region with the address. -/
def key (regions : List MemoryRegion) (addr : Nat) : UInt32 × UInt32 :=
  match regions.find? (·.contains addr) with
  | some entry => (entry.lkey, entry.rkey)
  | none => (0, 0)

/-! ## One list of regions -/

/-- The three tests find every common address. -/
theorem not_contains_of_not_overlaps {entry : MemoryRegion} {addr length x : Nat}
    (h : entry.overlaps addr length = false) (hlo : addr ≤ x) (hhi : x < addr + length) : entry.contains x = false := by
  simp only [overlaps, Bool.or_eq_false_iff, decide_eq_false_iff_not] at h
  simp only [contains, decide_eq_false_iff_not]
  omega

theorem register_some {regions regions' : List MemoryRegion} {addr length : Nat} {mr : Option Keys}
    (h : register regions addr length mr = some regions') :
    (∀ entry ∈ regions, entry.overlaps addr length = false) ∧
      ∃ k, mr = some k ∧ regions' = regions ++ [⟨k, addr, length⟩] := by
  unfold register at h
  split at h
  · cases h
  · rename_i hany
    obtain ⟨k, hk, rfl⟩ := Option.map_eq_some_iff.1 h
    refine ⟨fun entry he => ?_, k, hk, rfl⟩
    rw [Bool.not_eq_true, List.any_eq_false] at hany
    exact Bool.not_eq_true _ ▸ hany entry he

/-- The address is in some region of the list. -/
def Covers (regions : List MemoryRegion) (x : Nat) : Prop := ∃ entry ∈ regions, entry.contains x = true

theorem Covers.append {regions : List MemoryRegion} {x : Nat} (h : Covers regions x) (rest : List MemoryRegion) :
    Covers (regions ++ rest) x := by
  obtain ⟨entry, he, hx⟩ := h
  exact ⟨entry, List.mem_append_left _ he, hx⟩

theorem find_of_not_covers {regions : List MemoryRegion} {x : Nat} (h : ¬ Covers regions x) :
    regions.find? (·.contains x) = none := by
  rw [List.find?_eq_none]
  rintro entry he hx
  exact h ⟨entry, he, hx⟩

theorem key_of_not_covers {regions : List MemoryRegion} {x : Nat} (h : ¬ Covers regions x) :
    key regions x = (0, 0) := by
  simp only [key, find_of_not_covers h]

/-- A region that is added does not change the keys of the addresses that have some. -/
theorem key_append {regions : List MemoryRegion} {x : Nat} (h : Covers regions x) (rest : List MemoryRegion) :
    key (regions ++ rest) x = key regions x := by
  obtain ⟨first, hfirst⟩ : ∃ first, regions.find? (·.contains x) = some first :=
    Option.isSome_iff_exists.1 (List.find?_isSome.2 h)
  simp only [key, List.find?_append, hfirst, Option.some_or]

section register

variable {regions regions' : List MemoryRegion} {addr length x : Nat} {mr : Option Keys}

/-- No address of the new region was covered. -/
theorem not_covers_of_register (h : register regions addr length mr = some regions') (hlo : addr ≤ x)
    (hhi : x < addr + length) : ¬ Covers regions x := by
  rintro ⟨entry, he, hx⟩
  rw [not_contains_of_not_overlaps ((register_some h).1 entry he) hlo hhi] at hx
  cases hx

/-- The addresses of the new region have its keys. -/
theorem key_register (h : register regions addr length mr = some regions') (hlo : addr ≤ x) (hhi : x < addr + length) :
    ∃ k, mr = some k ∧ Covers regions' x ∧ key regions' x = (k.lkey, k.rkey) := by
  have hold := not_covers_of_register h hlo hhi
  obtain ⟨-, k, hk, rfl⟩ := register_some h
  have hx : contains ⟨k, addr, length⟩ x = true := decide_eq_true ⟨hlo, hhi⟩
  refine ⟨k, hk, ⟨_, List.mem_append_right _ (List.mem_singleton_self _), hx⟩, ?_⟩
  simp only [key, List.find?_append, find_of_not_covers hold, Option.none_or, List.find?_cons, hx]

/-- The list grows at its end. -/
theorem covers_register (h : register regions addr length mr = some regions') (hx : Covers regions x) :
    Covers regions' x ∧ key regions' x = key regions x := by
  obtain ⟨-, k, -, rfl⟩ := register_some h
  exact ⟨hx.append _, key_append hx _⟩

/-- An address that another list covers is not in a region that list has room for. -/
theorem not_covers_register {device device' : List MemoryRegion} {mr' : Option Keys}
    (h : register regions addr length mr = some regions') (hd : register device addr length mr' = some device')
    (hcov : Covers device x) (hx : ¬ Covers regions x) : ¬ Covers regions' x := by
  obtain ⟨-, k, -, rfl⟩ := register_some h
  rintro ⟨entry, he, hin⟩
  rcases List.mem_append.1 he with he | he
  · exact hx ⟨entry, he, hin⟩
  · obtain rfl := List.mem_singleton.1 he
    obtain ⟨hlo, hhi⟩ := of_decide_eq_true hin
    exact not_covers_of_register hd hlo hhi hcov

end register

end MemoryRegion

end RapidTransfer
