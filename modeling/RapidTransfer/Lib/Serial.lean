/-
Serial numbers: indices that grow without bound, of which only the residue modulo `m` is carried.

- `eq_of_mod_eq`: two indices less than `m` apart are told apart by their residues;
- `inWindow`: the test, on residues alone, that a number lies in the window `[lo, lo + len)`, exact
  when the window is shorter than the modulus (`inWindow_iff`);
- `unwrap`: the reconstruction of an index of `[lo, hi]` from its residue, exact when `hi - lo` is
  below the modulus (`unwrap_of_mem`, `unwrap_of_not_mem`).
-/
import Mathlib.Tactic

namespace Serial

/-- Two indices with the same residue that are less than the modulus apart are equal. -/
theorem eq_of_mod_eq {m a b : Nat} (h : a % m = b % m) (h1 : a < b + m) (h2 : b < a + m) : a = b := by
  have hd := (Nat.modEq_iff_dvd' (n := m) (a := min a b) (b := max a b) (by omega)).1 (by
    rcases le_total a b with hab | hab
    · rw [min_eq_left hab, max_eq_right hab]; exact h
    · rw [min_eq_right hab, max_eq_left hab]; exact h.symm)
  have := Nat.eq_zero_of_dvd_of_lt hd (by omega)
  omega

theorem add_mod_of_lt {m a b : Nat} (hb : b < m) :
    (a + b) % m = if a % m + b < m then a % m + b else a % m + b - m := by
  rw [Nat.add_mod_eq_ite, Nat.mod_eq_of_lt hb]
  split_ifs <;> omega

/-! ## The window test -/

/-- The residue `x` passes the test for the window that starts at `lo` and has `len` elements. The
window may straddle a multiple of `m`, in which case its end has the smaller residue. -/
def inWindow (m lo len x : Nat) : Bool :=
  let wndStart := lo % m
  let wndEnd := (lo + len) % m
  if wndStart ≤ wndEnd then !(decide (x < wndStart) || decide (wndEnd ≤ x))
  else !(decide (x < wndStart) && decide (wndEnd ≤ x))

/-- The test accepts exactly the residues of the window's indices. -/
theorem inWindow_iff {m lo len x : Nat} (hlen : len < m) (hx : x < m) :
    inWindow m lo len x = true ↔ ∃ j, lo ≤ j ∧ j < lo + len ∧ j % m = x := by
  have hm : 0 < m := by omega
  have hlo := Nat.mod_lt lo hm
  have hend := add_mod_of_lt (m := m) (a := lo) hlen
  constructor
  · intro h
    -- the index with residue `x` at or after `lo`, at most one turn later
    refine ⟨if lo % m ≤ x then lo + (x - lo % m) else lo + (x + m - lo % m), ?_⟩
    have hres : ∀ d, d < m → (lo + d) % m = if lo % m + d < m then lo % m + d else lo % m + d - m :=
      fun d hd => add_mod_of_lt hd
    unfold inWindow at h
    simp only at h
    split_ifs at h hend ⊢ with h1 h2 h3 h4 h5 <;>
      simp only [Bool.not_eq_true', Bool.or_eq_false_iff, Bool.and_eq_false_iff, decide_eq_false_iff_not] at h
    all_goals exact ⟨by omega, by omega, by rw [hres _ (by omega)]; split_ifs <;> omega⟩
  · rintro ⟨j, h1, h2, rfl⟩
    obtain ⟨d, rfl⟩ := Nat.exists_eq_add_of_le h1
    have hj := add_mod_of_lt (m := m) (a := lo) (b := d) (by omega)
    unfold inWindow
    simp only
    split_ifs at hend hj ⊢ with h3 h4 h5 <;>
      simp only [Bool.not_eq_true', Bool.or_eq_false_iff, Bool.and_eq_false_iff, decide_eq_false_iff_not]
    all_goals omega

/-! ## Reconstruction from a residue -/

/-- The index of `[lo, hi]` with residue `x`, `lo` when the residue is that of no such index. -/
def unwrap (m lo hi x : Nat) : Nat :=
  let tail := lo % m
  let head := hi % m
  if tail ≤ head ∧ tail ≤ x ∧ x ≤ head then lo + (x - tail)
  else if head < tail ∧ x ≤ head then hi - (head - x)
  else if head < tail ∧ tail ≤ x then lo + (x - tail)
  else lo

/-- Every index of a range shorter than the modulus is reconstructed from its residue. -/
theorem unwrap_of_mem {m lo hi t : Nat} (hlt : hi < lo + m) (h1 : lo ≤ t) (h2 : t ≤ hi) :
    unwrap m lo hi (t % m) = t := by
  have hm : 0 < m := by omega
  obtain ⟨d, rfl⟩ := Nat.exists_eq_add_of_le h1
  obtain ⟨e, rfl⟩ := Nat.exists_eq_add_of_le h2
  have hlo := Nat.mod_lt lo hm
  have ht := add_mod_of_lt (m := m) (a := lo) (b := d) (by omega)
  have hh := add_mod_of_lt (m := m) (a := lo) (b := d + e) (by omega)
  rw [← Nat.add_assoc] at hh
  unfold unwrap
  simp only
  split_ifs at ht hh ⊢ <;> omega

/-- Every other residue leaves the lower end in place. -/
theorem unwrap_of_not_mem {m lo hi x : Nat} (hle : lo ≤ hi) (hlt : hi < lo + m) (hx : x < m)
    (h : ∀ t, lo ≤ t → t ≤ hi → t % m ≠ x) : unwrap m lo hi x = lo := by
  have hm : 0 < m := by omega
  obtain ⟨d, rfl⟩ := Nat.exists_eq_add_of_le hle
  have hlo := Nat.mod_lt lo hm
  have hh := add_mod_of_lt (m := m) (a := lo) (b := d) (by omega)
  have hres : ∀ e, e ≤ d → (if lo % m + e < m then lo % m + e else lo % m + e - m) ≠ x := by
    intro e he
    rw [← add_mod_of_lt (m := m) (a := lo) (b := e) (by omega)]
    exact h (lo + e) (by omega) (by omega)
  -- in each accepting branch the residue is that of an index of the range
  have h1 := hres (x - lo % m)
  have h2 := hres (x + m - lo % m)
  unfold unwrap
  simp only
  split_ifs at hh h1 h2 ⊢ <;> omega

/-- The reconstruction never leaves the range. -/
theorem unwrap_bounds {m lo hi x : Nat} (hle : lo ≤ hi) (hlt : hi < lo + m) (hx : x < m) :
    lo ≤ unwrap m lo hi x ∧ unwrap m lo hi x ≤ hi := by
  by_cases h : ∃ t, lo ≤ t ∧ t ≤ hi ∧ t % m = x
  · obtain ⟨t, h1, h2, rfl⟩ := h
    rw [unwrap_of_mem hlt h1 h2]; exact ⟨h1, h2⟩
  · push Not at h
    rw [unwrap_of_not_mem hle hlt hx h]; exact ⟨le_refl _, hle⟩

/-- A residue stands for the index `a` it was taken from when `a` is not above the range and less
than the modulus below its upper end: the reconstruction is `a`, or the lower end if `a` is older. -/
theorem unwrap_mod {m lo hi a : Nat} (hle : lo ≤ hi) (hlt : hi < lo + m) (ha : a ≤ hi) (hage : hi < a + m) :
    unwrap m lo hi (a % m) = max lo a := by
  by_cases hla : lo ≤ a
  · rw [unwrap_of_mem hlt hla ha, max_eq_right hla]
  · rw [unwrap_of_not_mem hle hlt (Nat.mod_lt _ (by omega)), max_eq_left (by omega)]
    intro t h1 h2 h
    have := eq_of_mod_eq h (by omega) (by omega)
    omega

end Serial
