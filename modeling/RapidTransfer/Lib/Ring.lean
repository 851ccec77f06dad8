/-
Ring buffers addressed by unbounded indices: index `i` lives in slot `i % cap`. `Holds` says what
the slots of the live range `[lo, hi)` contain; it survives appending at `hi` while the range is
shorter than the ring, dropping indices at `lo`, and changing the content of one live slot.
-/
import RapidTransfer.Lib.Serial

namespace Ring

variable {α : Type}

/-- Writes slot `k`. -/
def set (slots : Nat → α) (k : Nat) (a : α) : Nat → α := fun j => if j = k then a else slots j

@[simp] theorem set_same (slots : Nat → α) (k : Nat) (a : α) : set slots k a k = a := by simp [set]

theorem set_of_ne (slots : Nat → α) {j k : Nat} (a : α) (h : j ≠ k) : set slots k a j = slots j := by
  simp [set, h]

/-- Two different live indices have different slots. -/
theorem slot_ne {cap lo i j : Nat} (hi : lo ≤ i) (hi' : i < lo + cap) (hj : lo ≤ j) (hj' : j < lo + cap)
    (h : i ≠ j) : i % cap ≠ j % cap :=
  fun he => h (Serial.eq_of_mod_eq he (by omega) (by omega))

/-- Every index of `[lo, hi)` has its element, with property `P`, in its slot. -/
def Holds (slots : Nat → α) (cap lo hi : Nat) (P : Nat → α → Prop) : Prop :=
  ∀ i, lo ≤ i → i < hi → P i (slots (i % cap))

theorem Holds.mono {slots : Nat → α} {cap lo hi : Nat} {P Q : Nat → α → Prop} (h : Holds slots cap lo hi P)
    (hpq : ∀ i a, lo ≤ i → i < hi → P i a → Q i a) : Holds slots cap lo hi Q :=
  fun i h1 h2 => hpq i _ h1 h2 (h i h1 h2)

theorem Holds.narrow {slots : Nat → α} {cap lo hi lo' : Nat} {P : Nat → α → Prop} (h : Holds slots cap lo hi P)
    (hle : lo ≤ lo') : Holds slots cap lo' hi P :=
  fun i h1 h2 => h i (by omega) h2

/-- Appending at `hi` overwrites no live slot while the range is shorter than the ring. -/
theorem Holds.push {slots : Nat → α} {cap lo hi : Nat} {P : Nat → α → Prop} (h : Holds slots cap lo hi P)
    (hlen : hi < lo + cap) {a : α} (ha : P hi a) : Holds (set slots (hi % cap) a) cap lo (hi + 1) P := by
  intro i h1 h2
  by_cases hi' : i = hi
  · subst hi'; rw [set_same]; exact ha
  · rw [set_of_ne _ _ (slot_ne h1 (by omega) (by omega : lo ≤ hi) hlen hi')]
    exact h i h1 (by omega)

/-- Changing the element of one live index leaves the others alone. -/
theorem Holds.update {slots : Nat → α} {cap lo hi k : Nat} {P Q : Nat → α → Prop} (h : Holds slots cap lo hi P)
    (hlen : hi ≤ lo + cap) (h1 : lo ≤ k) (h2 : k < hi) {a : α} (ha : Q k a)
    (hpq : ∀ i b, i ≠ k → P i b → Q i b) : Holds (set slots (k % cap) a) cap lo hi Q := by
  intro i hi1 hi2
  by_cases hik : i = k
  · subst hik; rw [set_same]; exact ha
  · rw [set_of_ne _ _ (slot_ne hi1 (by omega) h1 (by omega) hik)]
    exact hpq i _ hik (h i hi1 hi2)

/-- A property of the contents alone is kept, however long the range is, by a change of one slot that keeps it. -/
theorem forall_set {slots : Nat → α} {cap hi k : Nat} {a : α} {P : α → Prop} (h : ∀ i < hi, P (slots (i % cap)))
    (ha : P (slots k) → P a) : ∀ i < hi, P (set slots k a (i % cap)) := by
  intro i hi
  by_cases hk : i % cap = k
  · rw [hk, set_same]
    exact ha (hk ▸ h i hi)
  · rw [set_of_ne _ _ hk]
    exact h i hi

/-- Writing at `hi` adds that index. -/
theorem forall_push {slots : Nat → α} {cap hi : Nat} {a : α} {P : α → Prop} (h : ∀ i < hi, P (slots (i % cap)))
    (ha : P a) : ∀ i < hi + 1, P (set slots (hi % cap) a (i % cap)) := by
  intro i hlt
  rcases Nat.lt_succ_iff_lt_or_eq.1 hlt with hlt | rfl
  · exact forall_set h (fun _ => ha) i hlt
  · rw [set_same]
    exact ha

end Ring
