/-
The estimator of the retransmission timeout in machine arithmetic. `updateRTO` subtracts unsigned numbers into a `long`,
takes its absolute value, and adds it back to unsigned numbers; `updateRTO64` follows the source operation by
operation. For samples of 48 bits, which is all an ACK can give, no intermediate value leaves its type and the machine
computes what `updateRTO` computes on natural numbers (`updateRTO64_eq`).

The two filters are bounded together: the deviation stays below the largest sample because the mean does, and the mean
can only exceed it when it was rounded up to one, which takes a sample that is not zero.
-/
import RapidTransfer.Context.Unicast
import RapidTransfer.Context.Mcast

namespace RapidTransfer.Core

/-! ## Machine arithmetic -/

/-- The value of a 64-bit `long`. -/
def long (x : Int) : Int := Int.bmod x (2 ^ 64)

theorem long_of_small {x : Int} (hlo : -2 ^ 63 ≤ x) (hhi : x < 2 ^ 63) : long x = x := by
  unfold long Int.bmod
  dsimp only
  split <;> omega

/-- A difference of unsigned numbers, stored in a `long`, is the difference when it fits. -/
theorem long_sub64 {a b : Nat} (ha : a < 2 ^ 63) (hb : b < 2 ^ 63) : long (sub64 a b) = (a : Int) - b := by
  unfold long Int.bmod sub64
  dsimp only
  split <;> omega

/-- `updateRTO` in 64-bit arithmetic. -/
def updateRTO64 (kMinRTO kMaxRTO : Nat) (c : Core) (rtt : Nat) : Core :=
  let (srtt, rttval) :=
    if c.recvSrtt = 0 then (rtt, rtt / 2)
    else
      let delta := long (sub64 rtt c.recvSrtt)
      let delta := if delta < 0 then long (-delta) else delta
      let rttval := (3 * c.recvRttval % 2 ^ 64 + (delta % 2 ^ 64).toNat) % 2 ^ 64 / 4
      let srtt := (7 * c.recvSrtt % 2 ^ 64 + rtt) % 2 ^ 64 / 8
      (if srtt < 1 then 1 else srtt, rttval)
  let rto := (srtt + 4 * rttval % 2 ^ 64) % 2 ^ 64
  { c with recvSrtt := srtt, recvRttval := rttval, recvRto := min (max kMinRTO rto) kMaxRTO }

/-- No value of the call leaves its type: the difference and its negation fit a `long`, the sums and products an
unsigned 64-bit number. -/
structure Fits64 (kMinRTO kMaxRTO : Nat) (c : Core) (rtt : Nat) : Prop where
  delta : c.recvSrtt ≠ 0 → long (sub64 rtt c.recvSrtt) = (rtt : Int) - c.recvSrtt
  negated : c.recvSrtt ≠ 0 → long (-((rtt : Int) - c.recvSrtt)) = (c.recvSrtt : Int) - rtt
  deviation : c.recvSrtt ≠ 0 → 3 * c.recvRttval + ((rtt : Int) - c.recvSrtt).natAbs < 2 ^ 64
  mean : c.recvSrtt ≠ 0 → 7 * c.recvSrtt + rtt < 2 ^ 64
  rto : (updateRTO kMinRTO kMaxRTO c rtt).recvSrtt + 4 * (updateRTO kMinRTO kMaxRTO c rtt).recvRttval < 2 ^ 64

section

variable {lo hi : Nat} {c : Core} {rtt : Nat} (kMinRTO kMaxRTO : Nat)

/-! ## One sample -/

/-- The filters after samples between `lo` and `hi`: the mean is between them, or one when all samples were zero but
for rounding; the deviation is at most `hi`; and a mean that is not zero comes from a sample that is not. -/
structure Filtered (lo hi : Nat) (c : Core) : Prop where
  mean_ge : lo ≤ c.recvSrtt
  mean_le : c.recvSrtt ≤ max 1 hi
  deviation_le : c.recvRttval ≤ hi
  sampled : c.recvSrtt ≠ 0 → 1 ≤ hi

theorem updateRTO_of_zero (rtt : Nat) (h : c.recvSrtt = 0) :
    (updateRTO kMinRTO kMaxRTO c rtt).recvSrtt = rtt ∧ (updateRTO kMinRTO kMaxRTO c rtt).recvRttval = rtt / 2 := by
  simp only [updateRTO, h, if_true, and_self]

theorem updateRTO_of_ne (rtt : Nat) (h : c.recvSrtt ≠ 0) :
    (updateRTO kMinRTO kMaxRTO c rtt).recvSrtt = max ((7 * c.recvSrtt + rtt) / 8) 1 ∧
      (updateRTO kMinRTO kMaxRTO c rtt).recvRttval = (3 * c.recvRttval + ((rtt : Int) - c.recvSrtt).natAbs) / 4 := by
  have habs : max rtt c.recvSrtt - min rtt c.recvSrtt = ((rtt : Int) - c.recvSrtt).natAbs := by omega
  simp only [updateRTO, if_neg h, habs, and_self]

theorem Filtered.updateRTO (h : c.recvSrtt = 0 ∨ Filtered lo hi c) (hlo : lo ≤ rtt) (hhi : rtt ≤ hi) :
    Filtered lo hi (updateRTO kMinRTO kMaxRTO c rtt) := by
  by_cases hz : c.recvSrtt = 0
  · obtain ⟨hs, hv⟩ := updateRTO_of_zero kMinRTO kMaxRTO rtt hz
    constructor <;> omega
  · obtain ⟨hmlo, hmhi, hdev, hsamp⟩ := h.resolve_left hz
    have hpos := hsamp hz
    obtain ⟨hs, hv⟩ := updateRTO_of_ne kMinRTO kMaxRTO rtt hz
    constructor <;> omega

theorem fits64_of_filtered (h : c.recvSrtt = 0 ∨ Filtered lo hi c) (hlo : lo ≤ rtt) (hhi : rtt ≤ hi)
    (hbits : hi < 2 ^ 48) : Fits64 kMinRTO kMaxRTO c rtt := by
  have hnext := Filtered.updateRTO kMinRTO kMaxRTO h hlo hhi
  have hrto := hnext.mean_le
  have hdev := hnext.deviation_le
  refine ⟨fun hz => ?_, fun hz => ?_, fun hz => ?_, fun hz => ?_, by omega⟩
  all_goals
    have hmean := (h.resolve_left hz).mean_le
    have hdev := (h.resolve_left hz).deviation_le
  · exact long_sub64 (by omega) (by omega)
  · rw [long_of_small (by omega) (by omega)]
    omega
  · omega
  · omega

/-- Where everything fits, the machine computes what the natural numbers do. -/
theorem updateRTO64_eq {kMinRTO kMaxRTO : Nat} (h : Fits64 kMinRTO kMaxRTO c rtt) :
    updateRTO64 kMinRTO kMaxRTO c rtt = updateRTO kMinRTO kMaxRTO c rtt := by
  have hrto := h.rto
  by_cases hz : c.recvSrtt = 0
  · obtain ⟨hs, hv⟩ := updateRTO_of_zero kMinRTO kMaxRTO rtt hz
    rw [hs, hv] at hrto
    simp only [updateRTO64, updateRTO, hz, if_true]
    rw [Nat.mod_eq_of_lt (by omega : 4 * (rtt / 2) < 2 ^ 64), Nat.mod_eq_of_lt hrto]
  · obtain ⟨hs, hv⟩ := updateRTO_of_ne kMinRTO kMaxRTO rtt hz
    rw [hs, hv] at hrto
    have hdev := h.deviation hz
    have hmean := h.mean hz
    -- the absolute value, back among unsigned numbers
    have habs : ((if (rtt : Int) - c.recvSrtt < 0 then long (-((rtt : Int) - c.recvSrtt)) else (rtt : Int) - c.recvSrtt)
        % 2 ^ 64).toNat = ((rtt : Int) - c.recvSrtt).natAbs := by
      rw [h.negated hz]
      split <;> omega
    have hmax : (if (7 * c.recvSrtt + rtt) / 8 < 1 then 1 else (7 * c.recvSrtt + rtt) / 8) =
        max ((7 * c.recvSrtt + rtt) / 8) 1 := by
      split <;> omega
    have hmod3 : 3 * c.recvRttval % 2 ^ 64 = 3 * c.recvRttval := Nat.mod_eq_of_lt (by omega)
    have hmod7 : 7 * c.recvSrtt % 2 ^ 64 = 7 * c.recvSrtt := Nat.mod_eq_of_lt (by omega)
    have hmod4 : 4 * ((3 * c.recvRttval + ((rtt : Int) - c.recvSrtt).natAbs) / 4) % 2 ^ 64 =
        4 * ((3 * c.recvRttval + ((rtt : Int) - c.recvSrtt).natAbs) / 4) := Nat.mod_eq_of_lt (by omega)
    have heq : max rtt c.recvSrtt - min rtt c.recvSrtt = ((rtt : Int) - c.recvSrtt).natAbs := by omega
    simp only [updateRTO64, updateRTO, if_neg hz, h.delta hz, habs, hmod3, hmod7, Nat.mod_eq_of_lt hdev,
      Nat.mod_eq_of_lt hmean, hmax, hmod4, Nat.mod_eq_of_lt hrto, heq]

/-! ## Sequences of samples -/

/-- The estimator after the samples, in the order they came. -/
def estimate (kMinRTO kMaxRTO : Nat) (c : Core) (samples : List Nat) : Core :=
  samples.foldl (updateRTO64 kMinRTO kMaxRTO) c

theorem estimate_snoc (c : Core) (samples : List Nat) (rtt : Nat) :
    estimate kMinRTO kMaxRTO c (samples ++ [rtt]) =
      updateRTO64 kMinRTO kMaxRTO (estimate kMinRTO kMaxRTO c samples) rtt := by
  rw [estimate, List.foldl_append]
  rfl

/-- From a fresh estimator: the filters are bounded by the samples. -/
theorem filtered_estimate (h0 : c.recvSrtt = 0) (hbits : hi < 2 ^ 48) {samples : List Nat}
    (hs : ∀ r ∈ samples, lo ≤ r ∧ r ≤ hi) :
    (estimate kMinRTO kMaxRTO c samples).recvSrtt = 0 ∨ Filtered lo hi (estimate kMinRTO kMaxRTO c samples) := by
  induction samples using List.reverseRecOn with
  | nil => exact .inl h0
  | append_singleton samples rtt ih =>
    have hprev := ih fun r hr => hs r (List.mem_append_left _ hr)
    obtain ⟨hlo, hhi⟩ := hs rtt (List.mem_append_right _ (List.mem_singleton_self _))
    rw [estimate_snoc, updateRTO64_eq (fits64_of_filtered kMinRTO kMaxRTO hprev hlo hhi hbits)]
    exact .inr (Filtered.updateRTO kMinRTO kMaxRTO hprev hlo hhi)

/-- The last sample of a sequence: it fits, and what it leaves. -/
theorem estimate_last (h0 : c.recvSrtt = 0) (hbits : hi < 2 ^ 48) {samples : List Nat}
    (hs : ∀ r ∈ samples ++ [rtt], lo ≤ r ∧ r ≤ hi) :
    Fits64 kMinRTO kMaxRTO (estimate kMinRTO kMaxRTO c samples) rtt ∧
      estimate kMinRTO kMaxRTO c (samples ++ [rtt]) =
        updateRTO kMinRTO kMaxRTO (estimate kMinRTO kMaxRTO c samples) rtt ∧
      Filtered lo hi (estimate kMinRTO kMaxRTO c (samples ++ [rtt])) := by
  have hprev := filtered_estimate kMinRTO kMaxRTO h0 hbits fun r hr => hs r (List.mem_append_left _ hr)
  obtain ⟨hlo, hhi⟩ := hs rtt (List.mem_append_right _ (List.mem_singleton_self _))
  have hfits := fits64_of_filtered kMinRTO kMaxRTO hprev hlo hhi hbits
  have heq := (estimate_snoc kMinRTO kMaxRTO c samples rtt).trans (updateRTO64_eq hfits)
  refine ⟨hfits, heq, ?_⟩
  rw [heq]
  exact Filtered.updateRTO kMinRTO kMaxRTO hprev hlo hhi

/-- The filters after a sequence, in the bounds of its samples. -/
theorem filtered_of_ne_nil (h0 : c.recvSrtt = 0) {samples : List Nat} (hne : samples ≠ [])
    (hs : ∀ r ∈ samples, r < 2 ^ 48) (hbounds : ∀ r ∈ samples, lo ≤ r ∧ r ≤ hi) :
    Filtered lo (min hi (2 ^ 48 - 1)) (estimate kMinRTO kMaxRTO c samples) := by
  obtain ⟨before, last, rfl⟩ := (List.eq_nil_or_concat' samples).resolve_left hne
  refine (estimate_last kMinRTO kMaxRTO h0 (by omega) fun r hr => ?_).2.2
  have hbits := hs r hr
  have hb := hbounds r hr
  omega

end

/-! ## The two classes -/

/-- The bounds of `Context` and of `ContextMcast`. -/
def ClassBounds (kMinRTO kMaxRTO : Nat) : Prop :=
  (kMinRTO, kMaxRTO) = (Context.kMinRTO, Context.kMaxRTO) ∨
    (kMinRTO, kMaxRTO) = (ContextMcast.kMinRTO, ContextMcast.kMaxRTO)

theorem ClassBounds.le {kMinRTO kMaxRTO : Nat} (h : ClassBounds kMinRTO kMaxRTO) : kMinRTO ≤ kMaxRTO := by
  rcases h with h | h
  all_goals
    obtain ⟨rfl, rfl⟩ := Prod.mk.inj h
    decide

/-- After any samples of 48 bits: every one of them was taken without an overflow, the mean and the deviation are
bounded by the samples, and the timeout by the constants of the class. When all samples are equal and not zero, the mean
is that sample, and one more of them does not raise the deviation. -/
theorem estimate_in_range {kMinRTO kMaxRTO : Nat} (hk : ClassBounds kMinRTO kMaxRTO) {c : Core}
    (h0 : c.recvSrtt = 0) {samples : List Nat} (hne : samples ≠ []) (hs : ∀ r ∈ samples, r < 2 ^ 48) :
    (∀ before rtt after, samples = before ++ rtt :: after →
      Fits64 kMinRTO kMaxRTO (estimate kMinRTO kMaxRTO c before) rtt) ∧
    (∀ lo hi, (∀ r ∈ samples, lo ≤ r ∧ r ≤ hi) →
      lo ≤ (estimate kMinRTO kMaxRTO c samples).recvSrtt ∧
      (estimate kMinRTO kMaxRTO c samples).recvSrtt ≤ max 1 hi ∧
      (estimate kMinRTO kMaxRTO c samples).recvRttval ≤ hi) ∧
    (kMinRTO ≤ (estimate kMinRTO kMaxRTO c samples).recvRto ∧
      (estimate kMinRTO kMaxRTO c samples).recvRto ≤ kMaxRTO) ∧
    ∀ r, 1 ≤ r → (∀ x ∈ samples, x = r) →
      (estimate kMinRTO kMaxRTO c samples).recvSrtt = r ∧
      (estimate kMinRTO kMaxRTO c (samples ++ [r])).recvRttval ≤
        (estimate kMinRTO kMaxRTO c samples).recvRttval := by
  have hwide : ∀ r ∈ samples, 0 ≤ r ∧ r ≤ 2 ^ 48 - 1 := fun r hr => ⟨Nat.zero_le r, by have := hs r hr; omega⟩
  refine ⟨?_, ?_, ?_, ?_⟩
  · rintro before rtt after rfl
    rw [List.append_cons] at hwide
    exact (estimate_last kMinRTO kMaxRTO h0 (by decide) fun r hr => hwide r (List.mem_append_left _ hr)).1
  · intro lo hi hbounds
    obtain ⟨hge, hle, hdev, -⟩ := filtered_of_ne_nil kMinRTO kMaxRTO h0 hne hs hbounds
    omega
  · obtain ⟨before, last, rfl⟩ := (List.eq_nil_or_concat' samples).resolve_left hne
    rw [(estimate_last kMinRTO kMaxRTO h0 (by decide) hwide).2.1]
    exact ⟨le_min (le_max_left _ _) hk.le, min_le_right _ _⟩
  · intro r hr hall
    have hmean : (estimate kMinRTO kMaxRTO c samples).recvSrtt = r := by
      obtain ⟨hge, hle, -, -⟩ := filtered_of_ne_nil kMinRTO kMaxRTO h0 hne hs fun x hx =>
        ⟨(hall x hx).ge, (hall x hx).le⟩
      omega
    refine ⟨hmean, ?_⟩
    have hmore : ∀ x ∈ samples ++ [r], 0 ≤ x ∧ x ≤ 2 ^ 48 - 1 := by
      intro x hx
      rcases List.mem_append.1 hx with hx | hx
      · exact hwide x hx
      · obtain ⟨y, hy⟩ := List.exists_mem_of_ne_nil samples hne
        rw [List.mem_singleton.1 hx, ← hall y hy]
        exact hwide y hy
    rw [(estimate_last kMinRTO kMaxRTO h0 (by decide) hmore).2.1,
      (updateRTO_of_ne kMinRTO kMaxRTO r (by omega)).2, hmean]
    omega

/-- The second sample is below the mean: the difference is negative, and the `long` has its value. -/
theorem estimate_of_falling_samples : ∃ c, Context.start (smallConfig 256) = some c ∧
    Fits64 Context.kMinRTO Context.kMaxRTO (estimate Context.kMinRTO Context.kMaxRTO c [1000]) 200 ∧
    (estimate Context.kMinRTO Context.kMaxRTO c [1000, 200]).recvRttval ≤ 1000 := by
  have hfresh : (Context.start (smallConfig 256)).any (fun c => decide (c.recvSrtt = 0)) = true := by decide +kernel
  obtain ⟨c, hstart, h0⟩ := (Option.any_eq_true _ _).1 hfresh
  obtain ⟨hfits, hbounds, -, -⟩ := estimate_in_range (.inl rfl) (of_decide_eq_true h0)
    (show [1000, 200] ≠ [] by decide) (by decide)
  exact ⟨c, hstart, hfits [1000] 200 [] rfl, (hbounds 200 1000 (by decide)).2.2⟩

end RapidTransfer.Core
