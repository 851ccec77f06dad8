/-
The arithmetic of the congestion window over any number of ACKs. `updateWndOnSuccess` clamps `cwnd` to the window the
peer advertises but never clamps the byte accumulator `incr`: every ACK adds to it, `mtu_size` in slow start and at
least `mtu_size / 16` after it. A session that is never throttled back counts past 32 bits, and on the way the round-up
to packets wraps first and leaves a window of zero (`window_closes`).

`Roomy` is what `incr` has to satisfy before a call. It is exact: far below the top of the range nothing can wrap,
and near the top the quotient is zero and the catch-up branch is always taken.
-/
import RapidTransfer.Lib.Runs
import RapidTransfer.Context.Frame

namespace RapidTransfer.Core

/-- The calls of a session that is never throttled back: one for each ACK, with the window it advertises. -/
def ack (mtuSize : Nat) (e : SessionInfo) (rwnd : Nat) : Option SessionInfo := onSuccess mtuSize rwnd e

/-- The windows a receiver advertises. -/
def Advertised (rwnd : Nat) : Prop := 1 ≤ rwnd ∧ rwnd ≤ 65535

instance (rwnd : Nat) : Decidable (Advertised rwnd) := inferInstanceAs (Decidable (_ ∧ _))

/-- Nothing that `updateWndOnSuccess` computes on the entry leaves 32 bits, and no divisor is zero. -/
def Exact (mtuSize : Nat) (e : SessionInfo) : Prop :=
  if e.cwnd < e.ssthresh then e.cwnd + 1 < 2 ^ 32 ∧ e.incr + mtuSize < 2 ^ 32
  else
    let a := max e.incr mtuSize
    let incr := a + mtuSize * mtuSize / a + mtuSize / 16
    a ≠ 0 ∧ mtuSize ≠ 0 ∧ mtuSize * mtuSize < 2 ^ 32 ∧ incr < 2 ^ 32 ∧ (e.cwnd + 1) * mtuSize < 2 ^ 32 ∧
      ((e.cwnd + 1) * mtuSize ≤ incr → incr + mtuSize - 1 < 2 ^ 32)

/-- There is room for one more packet in `incr`: a whole one in slow start, else the sixteenth and the round-up. -/
def Roomy (mtuSize : Nat) (e : SessionInfo) : Prop :=
  if e.cwnd < e.ssthresh then e.incr + mtuSize < 2 ^ 32 else e.incr + mtuSize / 16 + mtuSize ≤ 2 ^ 32

instance (mtuSize : Nat) (e : SessionInfo) : Decidable (Roomy mtuSize e) :=
  inferInstanceAs (Decidable (ite _ _ _))

section

variable {mtuSize : Nat} {e : SessionInfo}

/-! ## One call -/

theorem quotient_le (mtuSize incr : Nat) : mtuSize * mtuSize / max incr mtuSize ≤ mtuSize :=
  Nat.div_le_of_le_mul (Nat.mul_le_mul_right mtuSize (le_max_right incr mtuSize))

theorem quotient_eq_zero {incr : Nat} (hhi : mtuSize ≤ 4096) (h : 2 ^ 28 ≤ incr) :
    mtuSize * mtuSize / max incr mtuSize = 0 := by
  have hsq : mtuSize * mtuSize ≤ 4096 * 4096 := Nat.mul_le_mul hhi hhi
  exact Nat.div_eq_of_lt (by omega)

theorem window_bytes_le (hhi : mtuSize ≤ 4096) (hc : e.cwnd ≤ 65535) : (e.cwnd + 1) * mtuSize ≤ 2 ^ 28 :=
  calc (e.cwnd + 1) * mtuSize ≤ 65536 * 4096 := Nat.mul_le_mul (Nat.succ_le_succ hc) hhi
    _ = 2 ^ 28 := by norm_num

/-- The room is exactly what the call needs. -/
theorem exact_iff_roomy (hlo : 64 ≤ mtuSize) (hhi : mtuSize ≤ 4096) (hc : e.cwnd ≤ 65535) :
    Exact mtuSize e ↔ Roomy mtuSize e := by
  have hsq : mtuSize * mtuSize ≤ 4096 * 4096 := Nat.mul_le_mul hhi hhi
  have hbytes := window_bytes_le (e := e) hhi hc
  have hq := quotient_le mtuSize e.incr
  unfold Exact Roomy
  by_cases hslow : e.cwnd < e.ssthresh
  · rw [if_pos hslow, if_pos hslow]
    omega
  rw [if_neg hslow, if_neg hslow]
  dsimp only
  rcases Nat.lt_or_ge e.incr (2 ^ 28) with hlow | hhigh
  · -- far below the top
    exact iff_of_true ⟨by omega, by omega, by omega, by omega, by omega, by omega⟩ (by omega)
  · -- near the top: no quotient, and the window is behind
    rw [quotient_eq_zero hhi hhigh]
    constructor
    · rintro ⟨-, -, -, hincr, -, hcatch⟩
      have := hcatch (by omega)
      omega
    · intro hroom
      exact ⟨by omega, by omega, by omega, by omega, by omega, by omega⟩

/-- With room, the call is what it is without a modulus. -/
theorem growWindow_of_roomy (hlo : 64 ≤ mtuSize) (hhi : mtuSize ≤ 4096) (hc : e.cwnd ≤ 65535) (hpos : 1 ≤ e.cwnd)
    (hroom : Roomy mtuSize e) : ∃ e', growWindow mtuSize e = some e' ∧ 1 ≤ e'.cwnd := by
  have hex := (exact_iff_roomy hlo hhi hc).2 hroom
  unfold Exact at hex
  unfold growWindow
  by_cases hslow : e.cwnd < e.ssthresh
  · rw [if_pos hslow] at hex ⊢
    exact ⟨_, rfl, by simp only [Nat.mod_eq_of_lt hex.1]; omega⟩
  rw [if_neg hslow] at hex ⊢
  obtain ⟨ha, hm, hsq, hincr, hbytes, hcatch⟩ := hex
  simp only [if_neg ha, if_neg hm, Nat.mod_eq_of_lt hsq, Nat.mod_eq_of_lt hincr, Nat.mod_eq_of_lt hbytes]
  split
  · rename_i hbehind
    refine ⟨_, rfl, ?_⟩
    simp only [Nat.mod_eq_of_lt (hcatch hbehind)]
    rw [Nat.one_le_div_iff (by omega)]
    generalize mtuSize * mtuSize / max e.incr mtuSize = quotient
    omega
  · exact ⟨_, rfl, hpos⟩

/-! ## Runs -/

/-- The window has a packet and lies within what was advertised last, in 16 bits. -/
structure Open (e : SessionInfo) : Prop where
  cwnd_pos : 1 ≤ e.cwnd
  cwnd_le : e.cwnd ≤ e.rwnd
  rwnd_le : e.rwnd ≤ 65535

theorem open_construct (raw : PacketHandle) : Open (SessionInfo.construct raw) where
  cwnd_pos := le_refl 1
  cwnd_le := show 1 ≤ 64 by decide
  rwnd_le := show 64 ≤ 65535 by decide

theorem Open.ack (hlo : 64 ≤ mtuSize) (hhi : mtuSize ≤ 4096) (h : Open e) {rwnd : Nat} (hr : Advertised rwnd)
    (hroom : Roomy mtuSize e) : ∃ e', ack mtuSize e rwnd = some e' ∧ e'.rwnd = rwnd ∧ Open e' := by
  obtain ⟨x, hx, hpos⟩ := growWindow_of_roomy hlo hhi (h.cwnd_le.trans h.rwnd_le) h.cwnd_pos hroom
  refine ⟨{ x with rwnd := rwnd, cwnd := min rwnd x.cwnd }, by rw [Core.ack, onSuccess, hx]; rfl, rfl, ?_⟩
  exact ⟨le_min hr.1 hpos, min_le_left _ _, hr.2⟩

theorem open_run (hlo : 64 ≤ mtuSize) (hhi : mtuSize ≤ 4096) {raw : PacketHandle} {rwnds : List Nat}
    (h : Runs.Run (ack mtuSize) (fun e rwnd => Advertised rwnd ∧ Roomy mtuSize e) (SessionInfo.construct raw) rwnds e) :
    Open e := by
  refine h.invariant (P := Open) (open_construct raw) ?_
  rintro s rwnd s' hs ⟨hr, hroom⟩ hstep
  obtain ⟨s'', hs'', -, hopen⟩ := hs.ack hlo hhi hr hroom
  rw [hs''] at hstep
  exact Option.some.inj hstep ▸ hopen

/-- After any number of ACKs that all found room: the window is open and within what was advertised, and the next call
is exact and keeps it so iff it finds room. -/
theorem window_exact_iff_roomy (hlo : 64 ≤ mtuSize) (hhi : mtuSize ≤ 4096) {raw : PacketHandle} {rwnds : List Nat}
    (h : Runs.Run (ack mtuSize) (fun e rwnd => Advertised rwnd ∧ Roomy mtuSize e) (SessionInfo.construct raw) rwnds e) :
    (1 ≤ e.cwnd ∧ e.cwnd ≤ e.rwnd) ∧
      ∀ rwnd, Advertised rwnd →
        ((Exact mtuSize e ∧ ∃ e', ack mtuSize e rwnd = some e' ∧ e'.rwnd = rwnd ∧ 1 ≤ e'.cwnd ∧ e'.cwnd ≤ rwnd) ↔
          Roomy mtuSize e) := by
  have hopen := open_run hlo hhi h
  have hc : e.cwnd ≤ 65535 := hopen.cwnd_le.trans hopen.rwnd_le
  refine ⟨⟨hopen.cwnd_pos, hopen.cwnd_le⟩, fun rwnd hr => ⟨fun hex => (exact_iff_roomy hlo hhi hc).1 hex.1, ?_⟩⟩
  intro hroom
  obtain ⟨e', he', hrwnd, hopen'⟩ := hopen.ack hlo hhi hr hroom
  exact ⟨(exact_iff_roomy hlo hhi hc).2 hroom, e', he', hrwnd, hopen'.cwnd_pos, hrwnd ▸ hopen'.cwnd_le⟩

end

/-- Three ACKs of a session with the usual packets, the last with a narrow window. -/
theorem window_after_three_acks : ∃ e,
    Runs.Run (ack 1500) (fun e rwnd => Advertised rwnd ∧ Roomy 1500 e)
      (SessionInfo.construct ⟨0, 0, 0, 0, 0, false, false, false, none, 0, 0⟩) [64, 64, 2] e ∧
      e.cwnd = 2 ∧ Roomy 1500 e ∧ Exact 1500 e := by
  obtain ⟨e, hrun, htest⟩ := Runs.exists_run_of_exec (ack 1500) (fun e rwnd => Advertised rwnd ∧ Roomy 1500 e)
    (SessionInfo.construct ⟨0, 0, 0, 0, 0, false, false, false, none, 0, 0⟩) [64, 64, 2]
    (fun e => decide (e.cwnd = 2 ∧ Roomy 1500 e)) (by decide)
  obtain ⟨hc, hroom⟩ := of_decide_eq_true htest
  have hsafe := (window_exact_iff_roomy (by decide) (by decide) hrun).2 64 (by decide)
  exact ⟨e, hrun, hc, hroom, (hsafe.2 hroom).1⟩

/-! ## Without room -/

theorem ack_slow_start (mtuSize : Nat) {e : SessionInfo} (hslow : e.cwnd < e.ssthresh) (hc : e.cwnd + 1 < 2 ^ 32)
    (hincr : e.incr + mtuSize < 2 ^ 32) (rwnd : Nat) :
    ack mtuSize e rwnd =
      some { e with cwnd := min rwnd (e.cwnd + 1), rwnd := rwnd, incr := e.incr + mtuSize } := by
  rw [ack, onSuccess, growWindow, if_pos hslow, Nat.mod_eq_of_lt hc, Nat.mod_eq_of_lt hincr]
  rfl

/-- As long as the peer advertises one packet the session stays in slow start, and `incr` takes a packet an ACK. -/
theorem run_slow_start (mtuSize : Nat) (raw : PacketHandle) {n : Nat} (hn : n * mtuSize < 2 ^ 32) :
    ∃ e, Runs.Run (ack mtuSize) (fun _ rwnd => Advertised rwnd) (SessionInfo.construct raw) (List.replicate n 1) e ∧
      e.cwnd = 1 ∧ e.ssthresh = 2 ∧ e.incr = n * mtuSize := by
  induction n with
  | zero => exact ⟨_, .nil, rfl, rfl, (Nat.zero_mul _).symm⟩
  | succ n ih =>
    rw [Nat.succ_mul] at hn ⊢
    obtain ⟨e, hrun, hc, hs, hi⟩ := ih (by omega)
    have hstep := ack_slow_start mtuSize (e := e) (by omega) (by omega) (by omega) 1
    rw [List.replicate_succ']
    exact ⟨_, .snoc hrun ⟨le_refl 1, by decide⟩ hstep, by simp only [hc]; rfl, hs, by simp only [hi]⟩

/-- One packet below the top the round-up wraps, and the window it leaves is empty. -/
theorem ack_closes {e : SessionInfo} (hc : e.cwnd = 2) (hs : e.ssthresh = 2) (hi : e.incr = 2 ^ 32 - 4096)
    (rwnd : Nat) : ∃ e', ack 4096 e rwnd = some e' ∧ ¬Exact 4096 e ∧ e'.cwnd = 0 := by
  have hgrow : growWindow 4096 e = some { e with incr := 2 ^ 32 - 4096 + 256, cwnd := 0 } := by
    simp only [growWindow, hc, hs, hi]
    norm_num
  refine ⟨_, by rw [ack, onSuccess, hgrow]; rfl, ?_, Nat.min_zero rwnd⟩
  simp only [Exact, hc, hs, hi]
  norm_num

/-- With packets of 4096 bytes: 2^20 - 2 ACKs in slow start, one that opens the window, and one that closes it. -/
theorem window_closes : ∃ rwnds e e',
    Runs.Run (ack 4096) (fun _ rwnd => Advertised rwnd)
      (SessionInfo.construct ⟨0, 0, 0, 0, 0, false, false, false, none, 0, 0⟩) rwnds e ∧
      ack 4096 e 65535 = some e' ∧ ¬Exact 4096 e ∧ e'.cwnd = 0 := by
  obtain ⟨rwnds, hrwnds⟩ : ∃ rwnds, rwnds = List.replicate (2 ^ 20 - 2) 1 := ⟨_, rfl⟩
  obtain ⟨e, hrun, hc, hs, hi⟩ := run_slow_start 4096 ⟨0, 0, 0, 0, 0, false, false, false, none, 0, 0⟩
    (n := 2 ^ 20 - 2) (by norm_num)
  rw [← hrwnds] at hrun
  have hopens := ack_slow_start 4096 (e := e) (by omega) (by omega) (by omega) 65535
  obtain ⟨e', hcloses, hwraps, hzero⟩ := ack_closes
    (e := { e with cwnd := min 65535 (e.cwnd + 1), rwnd := 65535, incr := e.incr + 4096 })
    (by simp only [hc]; rfl) hs (by simp only [hi]; norm_num) 65535
  exact ⟨_, _, e', .snoc hrun (by decide) hopens, hcloses, hwraps, hzero⟩

end RapidTransfer.Core
