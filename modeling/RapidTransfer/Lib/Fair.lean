/-
Infinite runs of the machines of `Lib/Runs`. A liveness property says what such a run comes to, given what keeps
happening in it. `exists_ge_of_rank` is the rule for it: until the goal is reached, a number drops again and again.
-/
import RapidTransfer.Lib.Runs

namespace Runs

variable {σ ε : Type}

/-- A run that never ends. -/
structure Behaviour (step : σ → ε → Option σ) (ok : σ → ε → Prop) where
  state : Nat → σ
  event : Nat → ε
  admitted : ∀ t, ok (state t) (event t)
  next : ∀ t, step (state t) (event t) = some (state (t + 1))

/-- What drops as long as the goal is not reached cannot drop for ever. -/
theorem exists_ge_of_rank {goal : Nat → Prop} (rank : Nat → Nat) {t0 : Nat}
    (h : ∀ t ≥ t0, ¬goal t → ∃ u ≥ t, goal u ∨ rank u < rank t) : ∃ u ≥ t0, goal u := by
  suffices hfrom : ∀ n, ∀ t ≥ t0, rank t = n → ∃ u ≥ t0, goal u from hfrom _ t0 le_rfl rfl
  intro n
  induction n using Nat.strong_induction_on with
  | _ n ih =>
    intro t ht hr
    by_cases hg : goal t
    · exact ⟨t, ht, hg⟩
    · obtain ⟨u, hu, hgoal | hlt⟩ := h t ht hg
      · exact ⟨u, ht.trans hu, hgoal⟩
      · exact ih (rank u) (hr ▸ hlt) u (ht.trans hu) rfl

/-- What can only grow grows some time, or never. -/
theorem grows_or_stays {f : Nat → Nat} (hf : Monotone f) (t : Nat) : (∃ u ≥ t, f t < f u) ∨ ∀ u ≥ t, f u = f t := by
  by_cases h : ∃ u ≥ t, f t < f u
  · exact .inl h
  · right
    intro u hu
    push Not at h
    exact le_antisymm (h u hu) (hf hu)

/-! ## From finite runs -/

section Extend

variable {step : σ → ε → Option σ} {ok : σ → ε → Prop}

namespace Behaviour

def cons (b : Behaviour step ok) (s : σ) (e : ε) (hok : ok s e) (hstep : step s e = some (b.state 0)) :
    Behaviour step ok where
  state t := t.casesOn s b.state
  event t := t.casesOn e b.event
  admitted t := by
    cases t with
    | zero => exact hok
    | succ t => exact b.admitted t
  next t := by
    cases t with
    | zero => exact hstep
    | succ t => exact b.next t

/-- One event over and over again. -/
def repeated (f : σ → σ) (e : ε) (hok : ∀ s, ok s e) (hstep : ∀ s, step s e = some (f s)) (s : σ) :
    Behaviour step ok where
  state t := f^[t] s
  event _ := e
  admitted _ := hok _
  next t := by rw [hstep, Function.iterate_succ_apply']

end Behaviour

/-- A finite run goes on as an infinite one does that starts where it ends. -/
theorem Run.extend {es : List ε} {s0 s : σ} (h : Run step ok s0 es s) (b : Behaviour step ok) (hb : b.state 0 = s) :
    ∃ b' : Behaviour step ok, (∀ k ≤ es.length, Run step ok s0 (es.take k) (b'.state k)) ∧
      (∀ k, ∀ e ∈ es[k]?, b'.event k = e) ∧
      ∀ k, b'.state (es.length + k) = b.state k ∧ b'.event (es.length + k) = b.event k := by
  induction h generalizing b with
  | nil =>
    refine ⟨b, fun k hk => ?_, fun k e he => ?_, fun k => ?_⟩
    · obtain rfl : k = 0 := Nat.le_zero.1 hk
      rw [hb]
      exact .nil
    · cases he
    · simp
  | @snoc es s s' e hrun hok hstep ih =>
    obtain ⟨b', hstates, hevents, hrest⟩ := ih (b.cons s e hok (hb ▸ hstep)) rfl
    have hend : Run step ok s0 (es ++ [e]) (b'.state (es.length + 1)) := by
      rw [(hrest 1).1]
      exact .snoc hrun hok (hb ▸ hstep)
    refine ⟨b', fun k hk => ?_, fun k e' he => ?_, fun k => ?_⟩
    · rw [List.length_append, List.length_singleton] at hk
      rcases Nat.lt_or_ge es.length k with hlt | hge
      · obtain rfl : k = es.length + 1 := by omega
        rw [List.take_of_length_le (by simp)]
        exact hend
      · rw [List.take_append_of_le_length hge]
        exact hstates k hge
    · rcases Nat.lt_or_ge k es.length with hlt | hge
      · rw [List.getElem?_append_left hlt] at he
        exact hevents k e' he
      · rw [List.getElem?_append_right hge] at he
        obtain ⟨hk, rfl⟩ := List.getElem?_eq_some_iff.1 he
        obtain rfl : k = es.length := by simp at hk; omega
        have := (hrest 0).2
        rw [Nat.add_zero] at this
        rw [this]
        simp [Behaviour.cons]
    · have := hrest (k + 1)
      rw [List.length_append, List.length_singleton, show es.length + 1 + k = es.length + (k + 1) by omega]
      exact this

/-- The end of a run passes a test that its events' execution passes. -/
theorem Run.test_of_exec [∀ s e, Decidable (ok s e)] {es : List ε} {s0 s : σ} (h : Run step ok s0 es s)
    (test : σ → Bool) (hx : (exec step ok s0 es).any test = true) : test s = true := by
  obtain ⟨s', hrun, ht⟩ := exists_run_of_exec step ok s0 es test hx
  rw [h.unique hrun]
  exact ht

/-- A finite run goes on with one event over and over again. -/
theorem Run.followed_by {f : σ → σ} {e : ε} (hok : ∀ s, ok s e) (hstep : ∀ s, step s e = some (f s)) {es : List ε}
    {s0 s : σ} (h : Run step ok s0 es s) :
    ∃ b : Behaviour step ok, b.state 0 = s0 ∧ (∀ t, b.event t ∈ es ∨ b.event t = e) ∧
      (∀ t ≤ es.length, Run step ok s0 (es.take t) (b.state t)) ∧ ∀ t ≥ es.length, ∃ k, b.state t = f^[k] s := by
  obtain ⟨b, hstates, hevents, hrest⟩ := h.extend (.repeated f e hok hstep s) rfl
  refine ⟨b, (hstates 0 (Nat.zero_le _)).unique .nil, fun t => ?_, hstates, fun t ht => ?_⟩
  · rcases Nat.lt_or_ge t es.length with hlt | hge
    · have he := List.getElem?_eq_getElem hlt
      rw [hevents t _ he]
      exact .inl (List.getElem_mem hlt)
    · obtain ⟨k, rfl⟩ := Nat.exists_eq_add_of_le hge
      exact .inr (hrest k).2
  · obtain ⟨k, rfl⟩ := Nat.exists_eq_add_of_le ht
    exact ⟨k, (hrest k).1⟩

end Extend

end Runs
