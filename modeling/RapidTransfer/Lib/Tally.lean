/-
How many members of a finite family pass a test, and what changing one member does to that number.
-/
import Mathlib.Tactic

namespace Tally

variable {ι α : Type} [Fintype ι]

/-- The number of members that pass. -/
def count (p : α → Bool) (f : ι → α) : Nat := ∑ i, (p (f i)).toNat

variable {p q : α → Bool} {f : ι → α} {i j : ι}

/-- Changing one member takes its old value out of the count and puts the new one in. -/
theorem count_update [DecidableEq ι] (p : α → Bool) (f : ι → α) (i : ι) (x : α) :
    count p (Function.update f i x) + (p (f i)).toNat = count p f + (p x).toNat := by
  unfold count
  rw [← Finset.add_sum_erase _ _ (Finset.mem_univ i),
    ← Finset.add_sum_erase Finset.univ (fun k => (p (f k)).toNat) (Finset.mem_univ i)]
  have hrest : ∑ k ∈ Finset.univ.erase i, (p (Function.update f i x k)).toNat =
      ∑ k ∈ Finset.univ.erase i, (p (f k)).toNat := by
    refine Finset.sum_congr rfl fun k hk => ?_
    rw [Function.update_of_ne (Finset.ne_of_mem_erase hk)]
  rw [hrest, Function.update_self]
  omega

theorem count_pos (h : p (f i) = true) : 0 < count p f := by
  have hle := Finset.single_le_sum (f := fun k => (p (f k)).toNat) (fun _ _ => Nat.zero_le _) (Finset.mem_univ i)
  simp only [h, Bool.toNat_true] at hle
  exact hle

/-- No member passes when the count is zero. -/
theorem eq_false_of_count (h : count p f = 0) (i : ι) : p (f i) = false := by
  by_contra hne
  have := count_pos (Bool.eq_true_of_not_eq_false hne)
  omega

/-- Two members that pass. -/
theorem two_le_count (hij : i ≠ j) (hi : p (f i) = true) (hj : p (f j) = true) : 2 ≤ count p f := by
  classical
  have hsub : ({i, j} : Finset ι) ⊆ Finset.univ := Finset.subset_univ _
  have hle := Finset.sum_le_sum_of_subset (f := fun k => (p (f k)).toNat) hsub
  rw [Finset.sum_pair hij, hi, hj] at hle
  exact hle

theorem count_or (hpq : ∀ x, p x = true → q x = false) (f : ι → α) :
    count (fun x => p x || q x) f = count p f + count q f := by
  unfold count
  rw [← Finset.sum_add_distrib]
  refine Finset.sum_congr rfl fun i _ => ?_
  have hi := hpq (f i)
  cases hp : p (f i) with
  | true => simp only [hp, hi hp, Bool.or_false, Bool.toNat_true, Bool.toNat_false]
  | false => simp only [hp, Bool.false_or, Bool.toNat_false, Nat.zero_add]

theorem count_le_card (p : α → Bool) (f : ι → α) : count p f ≤ Fintype.card ι := by
  have hle : ∑ i, (p (f i)).toNat ≤ ∑ _i : ι, 1 := Finset.sum_le_sum fun i _ => Bool.toNat_le _
  simpa [count] using hle

theorem count_const_false (hp : ∀ i, p (f i) = false) : count p f = 0 := by
  unfold count
  simp [hp]

end Tally
