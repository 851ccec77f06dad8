/-
Runs of a deterministic partial machine: `step s e = some s'` is what event `e` does in state `s`,
`none` that the machine stops there. Nondeterminism sits in the events. `Run` lists the events
of a run whose every step is admitted by a guard `ok`, which states what the environment is assumed
to respect, and carries the state the run ends in.
-/
import Mathlib.Tactic

namespace Runs

variable {σ ε : Type}

/-- A run from `init`: its events, oldest first, and the state it reaches. -/
inductive Run (step : σ → ε → Option σ) (ok : σ → ε → Prop) (init : σ) : List ε → σ → Prop
  | nil : Run step ok init [] init
  | snoc {es : List ε} {s s' : σ} {e : ε} : Run step ok init es s → ok s e → step s e = some s' →
      Run step ok init (es ++ [e]) s'

variable {step : σ → ε → Option σ} {ok : σ → ε → Prop} {init : σ}

/-- What holds at the start and is kept by every admitted step holds at the end of every run. -/
theorem Run.invariant {P : σ → Prop} (h0 : P init)
    (hs : ∀ s e s', P s → ok s e → step s e = some s' → P s') {es : List ε} {s : σ}
    (h : Run step ok init es s) : P s := by
  induction h with
  | nil => exact h0
  | snoc _ hok hstep ih => exact hs _ _ _ ih hok hstep

/-- The last step of a run. -/
theorem Run.snoc_inv {es : List ε} {e : ε} {s' : σ} (h : Run step ok init (es ++ [e]) s') :
    ∃ s, Run step ok init es s ∧ ok s e ∧ step s e = some s' := by
  generalize hl : es ++ [e] = l at h
  cases h with
  | nil => simp at hl
  | snoc hrun hok hstep =>
    obtain ⟨rfl, hx⟩ := List.append_inj' hl rfl
    cases hx
    exact ⟨_, hrun, hok, hstep⟩

/-- A run through an event: the states around it. -/
theorem Run.split_at {es : List ε} {e : ε} (fs : List ε) {s : σ} (h : Run step ok init (es ++ e :: fs) s) :
    ∃ t t', Run step ok init es t ∧ ok t e ∧ step t e = some t' ∧ Run step ok t' fs s := by
  induction fs using List.reverseRecOn generalizing s with
  | nil =>
    obtain ⟨t, hrun, hok, hstep⟩ := h.snoc_inv
    exact ⟨t, s, hrun, hok, hstep, .nil⟩
  | append_singleton fs f ih =>
    rw [← List.cons_append, ← List.append_assoc] at h
    obtain ⟨s1, hrun, hok1, hstep1⟩ := h.snoc_inv
    obtain ⟨t, t', hes, hok, hstep, hfs⟩ := ih hrun
    exact ⟨t, t', hes, hok, hstep, .snoc hfs hok1 hstep1⟩

theorem Run.weaken {ok' : σ → ε → Prop} (hok : ∀ s e, ok s e → ok' s e) {es : List ε} {s : σ}
    (h : Run step ok init es s) : Run step ok' init es s := by
  induction h with
  | nil => exact .nil
  | snoc _ he hstep ih => exact .snoc ih (hok _ _ he) hstep

/-- The events determine the state a run reaches. -/
theorem Run.unique {es : List ε} {s s' : σ} (h : Run step ok init es s) (h' : Run step ok init es s') : s = s' := by
  induction h generalizing s' with
  | nil =>
    generalize hl : ([] : List ε) = l at h'
    cases h' with
    | nil => rfl
    | snoc => simp at hl
  | snoc _ _ hstep ih =>
    obtain ⟨t, ht, -, hstep'⟩ := h'.snoc_inv
    rw [← ih ht, hstep] at hstep'
    exact Option.some.inj hstep'

/-! ## Execution -/

/-- Executes a list of events, as long as each is admitted. -/
def exec (step : σ → ε → Option σ) (ok : σ → ε → Prop) [∀ s e, Decidable (ok s e)] (s : σ) : List ε → Option σ
  | [] => some s
  | e :: es => if ok s e then (step s e).bind fun s' => exec step ok s' es else none

theorem Run.cons {e : ε} {es : List ε} {s1 s : σ} (hok : ok init e) (hstep : step init e = some s1)
    (h : Run step ok s1 es s) : Run step ok init (e :: es) s := by
  induction h with
  | nil => rw [← List.nil_append [e]]; exact .snoc .nil hok hstep
  | snoc _ hok' hstep' ih => rw [← List.cons_append]; exact .snoc ih hok' hstep'

theorem run_of_exec [∀ s e, Decidable (ok s e)] : ∀ {es : List ε} {s s' : σ},
    exec step ok s es = some s' → Run step ok s es s'
  | [], s, s', h => by cases h; exact .nil
  | e :: es, s, s', h => by
    unfold exec at h
    split at h
    · rename_i hok
      obtain ⟨s1, h1, h2⟩ := Option.bind_eq_some_iff.1 h
      exact .cons hok h1 (run_of_exec h2)
    · cases h

/-- A run whose end passes a test, from executing its events. -/
theorem exists_run_of_exec (step : σ → ε → Option σ) (ok : σ → ε → Prop) [∀ s e, Decidable (ok s e)] (s : σ)
    (es : List ε) (test : σ → Bool)
    (h : (exec step ok s es).any test = true) : ∃ s', Run step ok s es s' ∧ test s' = true := by
  cases hx : exec step ok s es with
  | none => rw [hx] at h; cases h
  | some s' => rw [hx] at h; exact ⟨s', run_of_exec hx, h⟩

/-- The same from a start that is itself computed. -/
theorem exists_run_of_start (step : σ → ε → Option σ) (ok : σ → ε → Prop) [∀ s e, Decidable (ok s e)]
    (start : Option σ) (es : List ε) (test : σ → Bool)
    (h : (start.bind fun s => exec step ok s es).any test = true) :
    ∃ s0 s, start = some s0 ∧ Run step ok s0 es s ∧ test s = true := by
  cases hs : start with
  | none => rw [hs] at h; cases h
  | some s0 =>
    rw [hs] at h
    obtain ⟨s, hrun, ht⟩ := exists_run_of_exec step ok s0 es test h
    exact ⟨s0, s, rfl, hrun, ht⟩

/-! ## A machine over another -/

theorem Run.append {es fs : List ε} {s t : σ} (h : Run step ok init es s) (h' : Run step ok s fs t) :
    Run step ok init (es ++ fs) t := by
  induction h' with
  | nil => rw [List.append_nil]; exact h
  | snoc _ hok hstep ih => rw [← List.append_assoc]; exact .snoc ih hok hstep

/-- When every step is a run of the machine below, so is every run. -/
theorem Run.refine {τ δ : Type} {step' : τ → δ → Option τ} {ok' : τ → δ → Prop} {f : σ → τ}
    (hstep : ∀ s e s', ok s e → step s e = some s' → ∃ ds, Run step' ok' (f s) ds (f s')) {es : List ε} {s : σ}
    (h : Run step ok init es s) : ∃ ds, Run step' ok' (f init) ds (f s) := by
  induction h with
  | nil => exact ⟨[], .nil⟩
  | snoc _ hok hs ih =>
    obtain ⟨ds, hds⟩ := ih
    obtain ⟨ds', hds'⟩ := hstep _ _ _ hok hs
    exact ⟨ds ++ ds', hds.append hds'⟩

/-! ## Loops that can fail -/

/-- What every turn of a loop keeps, the loop keeps. -/
theorem foldlM_invariant {P : σ → Prop} {es : List ε} {s s' : σ} (h : es.foldlM step s = some s') (h0 : P s)
    (hs : ∀ e ∈ es, ∀ s s', P s → step s e = some s' → P s') : P s' := by
  induction es generalizing s with
  | nil =>
    cases h
    exact h0
  | cons e es ih =>
    rw [List.foldlM_cons] at h
    obtain ⟨s1, h1, hrest⟩ := Option.bind_eq_some_iff.1 h
    exact ih hrest (hs e List.mem_cons_self s s1 h0 h1) fun e he => hs e (List.mem_cons_of_mem _ he)

/-- A loop whose turns are turns of another loop over a part of the state. -/
theorem foldlM_project {τ : Type} {f : σ → τ} {step' : τ → ε → Option τ}
    (hs : ∀ s e s', step s e = some s' → step' (f s) e = some (f s')) {es : List ε} {s s' : σ}
    (h : es.foldlM step s = some s') : es.foldlM step' (f s) = some (f s') := by
  induction es generalizing s with
  | nil =>
    cases h
    rfl
  | cons e es ih =>
    rw [List.foldlM_cons] at h ⊢
    obtain ⟨s1, h1, hrest⟩ := Option.bind_eq_some_iff.1 h
    rw [hs s e s1 h1]
    exact ih hrest

/-! ## Two machines in lockstep -/

section Lockstep

variable {τ ο : Type}

/-- What a machine shows, event by event, until it stops. -/
def trace (step : σ → ε → Option (ο × σ)) : σ → List ε → List ο
  | _, [] => []
  | s, e :: es =>
    match step s e with
    | none => []
    | some r => r.1 :: trace step r.2 es

/-- Machines that show the same on every event and stay related have the same traces. -/
theorem trace_eq_of_related {step : σ → ε → Option (ο × σ)} {step' : τ → ε → Option (ο × τ)} {R : σ → τ → Prop}
    (h : ∀ s t e, R s t → Option.Rel (fun a b => a.1 = b.1 ∧ R a.2 b.2) (step s e) (step' t e)) :
    ∀ (es : List ε) (s : σ) (t : τ), R s t → trace step s es = trace step' t es
  | [], _, _, _ => rfl
  | e :: es, s, t, hr => by
    have hstep := h s t e hr
    unfold trace
    generalize step s e = x, step' t e = y at hstep
    cases hstep with
    | none => rfl
    | some hab =>
      simp only
      rw [hab.1, trace_eq_of_related h es _ _ hab.2]

end Lockstep

end Runs
