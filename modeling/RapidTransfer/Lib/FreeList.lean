/-
Free lists that live in the memory they hand out: the first eight bytes of a free block hold the address of the next
one, little-endian, and zero ends the list. `Chain` says which blocks a list consists of. It depends on the links of
these blocks only, so whatever is written elsewhere leaves it alone (`Chain.frame`), and a block goes on and comes off
at the front (`Chain.push`, `Chain.pop`).
-/
import RapidTransfer.Lib.Bytes

namespace FreeList

/-! ## Memory -/

/-- Bytes written from address `a` on. -/
def write (mem : Nat → UInt8) (a : Nat) (bs : List UInt8) : Nat → UInt8 := fun x =>
  if a ≤ x ∧ x < a + bs.length then bs.getD (x - a) 0 else mem x

def read (mem : Nat → UInt8) (a n : Nat) : List UInt8 := (List.range n).map fun k => mem (a + k)

theorem read_write_self (mem : Nat → UInt8) (a : Nat) (bs : List UInt8) : read (write mem a bs) a bs.length = bs := by
  refine List.ext_getElem (by simp [read]) fun k h1 h2 => ?_
  simp [read, write, h2]

theorem read_write_of_disjoint (mem : Nat → UInt8) {a x n : Nat} {bs : List UInt8}
    (h : x + n ≤ a ∨ a + bs.length ≤ x) : read (write mem a bs) x n = read mem x n := by
  refine List.map_congr_left fun k hk => ?_
  have := List.mem_range.1 hk
  exact if_neg (by omega)

/-- The address stored at `a`. -/
def link (mem : Nat → UInt8) (a : Nat) : Nat := Bytes.ofLe (read mem a 8)

def setLink (mem : Nat → UInt8) (a v : Nat) : Nat → UInt8 := write mem a (Bytes.toLe 8 v)

theorem link_setLink (mem : Nat → UInt8) (a : Nat) {v : Nat} (hv : v < 2 ^ 64) : link (setLink mem a v) a = v := by
  have hread := read_write_self mem a (Bytes.toLe 8 v)
  rw [Bytes.length_toLe] at hread
  rw [link, setLink, hread, Bytes.ofLe_toLe]
  exact Nat.mod_eq_of_lt hv

theorem link_write_of_disjoint (mem : Nat → UInt8) {a x : Nat} {bs : List UInt8}
    (h : x + 8 ≤ a ∨ a + bs.length ≤ x) : link (write mem a bs) x = link mem x := by
  rw [link, read_write_of_disjoint mem h, link]

theorem link_setLink_of_disjoint (mem : Nat → UInt8) {a x : Nat} (v : Nat) (h : x + 8 ≤ a ∨ a + 8 ≤ x) :
    link (setLink mem a v) x = link mem x :=
  link_write_of_disjoint mem (by rwa [Bytes.length_toLe])

/-! ## Chains -/

/-- The list from `head` on: its blocks in order. -/
inductive Chain (mem : Nat → UInt8) : Nat → List Nat → Prop
  | nil : Chain mem 0 []
  | cons {a : Nat} {l : List Nat} : a ≠ 0 → Chain mem (link mem a) l → Chain mem a (a :: l)

variable {mem mem' : Nat → UInt8} {head : Nat} {l : List Nat}

/-- Only the links of its blocks matter to a list. -/
theorem Chain.frame (h : Chain mem head l) (hlink : ∀ a ∈ l, link mem' a = link mem a) : Chain mem' head l := by
  induction h with
  | nil => exact .nil
  | @cons a l hne _ ih =>
    refine .cons hne ?_
    rw [hlink a List.mem_cons_self]
    exact ih fun b hb => hlink b (List.mem_cons_of_mem _ hb)

theorem Chain.head_eq_zero (h : Chain mem head l) : head = 0 ↔ l = [] := by
  cases h with
  | nil => exact iff_of_true rfl rfl
  | cons hne => exact iff_of_false hne (List.cons_ne_nil _ _)

/-- A block whose link is set to the list becomes its first. -/
theorem Chain.push (h : Chain mem head l) (hhead : head < 2 ^ 64) {a : Nat} (ha : a ≠ 0)
    (hapart : ∀ b ∈ l, b + 8 ≤ a ∨ a + 8 ≤ b) : Chain (setLink mem a head) a (a :: l) := by
  refine .cons ha ?_
  rw [link_setLink mem a hhead]
  exact h.frame fun b hb => link_setLink_of_disjoint mem head (hapart b hb)

/-- The first block comes off, and its link leads to the others. -/
theorem Chain.pop {a : Nat} (h : Chain mem head (a :: l)) : head = a ∧ Chain mem (link mem a) l := by
  cases h with
  | cons _ hrest => exact ⟨rfl, hrest⟩

end FreeList
