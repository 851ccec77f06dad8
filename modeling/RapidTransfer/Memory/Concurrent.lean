/-
`RdmaContext::registerMemoryRegion` under any number of threads. The call has two critical sections with the verb
between them: the scan of the table under the read guard, `ibv_reg_mr` under no lock, and the `push_back` under
the write guard. Each is one step of a thread.

A scan knows nothing of the ranges that other threads have scanned for and not yet pushed. Two threads that scan
before either pushes both find the table free of their range, and both push (`overlap_after_two_scans`). As long as
no thread scans for a range while another holds an intersecting one, the ranges held and the regions of the table
are disjoint together (`disjoint_of_clear`).
-/
import RapidTransfer.Memory.Table

namespace RapidTransfer.MemoryRegion.Concurrent

open MemoryRegion

/-- Where a thread is in the call: outside, after its scan, or with the region that the verb made. -/
inductive Place
  | idle
  | scanned (addr length : Nat)
  | made (mr : MemoryRegion)

/-- The range the thread is about to add. -/
def Place.range : Place → Option (Nat × Nat)
  | .idle => none
  | .scanned addr length => some (addr, length)
  | .made mr => some (mr.addr, mr.length)

/-- The steps of a call: the scan for a range, the verb with what it hands out, the `push_back`. -/
inductive Op
  | scan (addr length : Nat)
  | regMr (mr : Option Keys)
  | pushBack

structure State (ι : Type) where
  regions : List MemoryRegion
  place : ι → Place

variable {ι : Type}

def init (ι : Type) : State ι := ⟨[], fun _ => .idle⟩

section Step

variable [DecidableEq ι]

def State.move (s : State ι) (i : ι) (p : Place) : State ι := { s with place := Function.update s.place i p }

theorem State.place_move (s : State ι) (i j : ι) (p : Place) :
    (s.move i p).place j = if j = i then p else s.place j :=
  Function.update_apply s.place i p j

/-- One critical section, or the verb, of a thread; `none` when it is not at that point. -/
def step (s : State ι) (a : ι × Op) : Option (State ι) :=
  match a.2 with
  | .scan addr length =>
    match s.place a.1 with
    | .idle =>
      some (if s.regions.any (·.overlaps addr length) then s else s.move a.1 (.scanned addr length))
    | _ => none
  | .regMr mr =>
    match s.place a.1 with
    | .scanned addr length =>
      match mr with
      | none => some (s.move a.1 .idle)
      | some k => some (s.move a.1 (.made ⟨k, addr, length⟩))
    | _ => none
  | .pushBack =>
    match s.place a.1 with
    | .made mr => some { s.move a.1 .idle with regions := s.regions ++ [mr] }
    | _ => none

/-- What a step can do: end the call, hold a range the table is free of, make a region of the range held, or
push it. -/
theorem step_cases {s s' : State ι} {a : ι × Op} (h : step s a = some s') :
    (s' = s ∧ ∃ addr length, a.2 = .scan addr length) ∨
    (s' = s.move a.1 .idle ∧ a.2 = .regMr none) ∨
    (∃ addr length, a.2 = .scan addr length ∧ (∀ entry ∈ s.regions, entry.overlaps addr length = false) ∧
      s' = s.move a.1 (.scanned addr length)) ∨
    (∃ addr length k, s.place a.1 = .scanned addr length ∧ a.2 = .regMr (some k) ∧
      s' = s.move a.1 (.made ⟨k, addr, length⟩)) ∨
    ∃ mr, s.place a.1 = .made mr ∧ a.2 = .pushBack ∧
      s' = { s.move a.1 .idle with regions := s.regions ++ [mr] } := by
  obtain ⟨i, op⟩ := a
  cases op with
  | scan addr length =>
    cases hp : s.place i with
    | idle =>
      simp only [step, hp, Option.some.injEq] at h
      split at h
      · exact .inl ⟨h.symm, addr, length, rfl⟩
      · rename_i hany
        refine .inr (.inr (.inl ⟨addr, length, rfl, fun entry he => ?_, h.symm⟩))
        rw [Bool.not_eq_true, List.any_eq_false] at hany
        exact Bool.not_eq_true _ ▸ hany entry he
    | scanned => simp [step, hp] at h
    | made => simp [step, hp] at h
  | regMr mr =>
    cases hp : s.place i with
    | idle => simp [step, hp] at h
    | scanned addr length =>
      cases mr with
      | none =>
        simp only [step, hp, Option.some.injEq] at h
        exact .inr (.inl ⟨h.symm, rfl⟩)
      | some k =>
        simp only [step, hp, Option.some.injEq] at h
        exact .inr (.inr (.inr (.inl ⟨addr, length, k, rfl, rfl, h.symm⟩)))
    | made => simp [step, hp] at h
  | pushBack =>
    cases hp : s.place i with
    | idle => simp [step, hp] at h
    | scanned => simp [step, hp] at h
    | made mr =>
      simp only [step, hp, Option.some.injEq] at h
      exact .inr (.inr (.inr (.inr ⟨mr, rfl, rfl, h.symm⟩)))

variable {s : State ι} {i : ι} {addr length : Nat}

theorem step_scan (hi : s.place i = .idle) (hfree : ∀ entry ∈ s.regions, entry.overlaps addr length = false) :
    step s (i, .scan addr length) = some (s.move i (.scanned addr length)) := by
  have hany : s.regions.any (·.overlaps addr length) = false :=
    List.any_eq_false.2 fun entry he => by rw [hfree entry he]; exact Bool.false_ne_true
  simp only [step, hi, hany, if_false, Bool.false_eq_true]

theorem step_regMr (hi : s.place i = .scanned addr length) (k : Keys) :
    step s (i, .regMr (some k)) = some (s.move i (.made ⟨k, addr, length⟩)) := by
  simp only [step, hi]

theorem step_pushBack {mr : MemoryRegion} (hi : s.place i = .made mr) :
    step s (i, .pushBack) = some { s.move i .idle with regions := s.regions ++ [mr] } := by
  simp only [step, hi]

/-- A thread that nobody interrupts does what `register` does. -/
theorem register_eq_steps (hi : s.place i = .idle) {k : Keys} {regions' : List MemoryRegion}
    (h : register s.regions addr length (some k) = some regions') :
    Runs.Run step (fun _ _ => True) s [(i, .scan addr length), (i, .regMr (some k)), (i, .pushBack)]
      { s with regions := regions' } := by
  obtain ⟨hno, k', hk, rfl⟩ := register_some h
  cases hk
  refine .cons trivial (step_scan hi hno) (.cons trivial (step_regMr (Function.update_self ..) k)
    (.cons trivial (step_pushBack (Function.update_self ..)) ?_))
  have hback : Function.update s.place i .idle = s.place := by rw [← hi, Function.update_eq_self]
  simp only [State.move, Function.update_idem, hback]
  exact .nil

/-! ## Scans that do not cross -/

/-- Every range has an address. -/
def Proper (_ : State ι) (a : ι × Op) : Prop :=
  match a.2 with
  | .scan _ length => 1 ≤ length
  | .regMr _ => True
  | .pushBack => True

/-- Two ranges with no address in common. -/
def Beside (r r' : Nat × Nat) : Prop := r.1 + r.2 ≤ r'.1 ∨ r'.1 + r'.2 ≤ r.1

theorem Beside.symm {r r' : Nat × Nat} (h : Beside r r') : Beside r' r := Or.symm h

/-- A scan that does not find its range in the table comes when no thread holds a range that meets it. -/
def Clear (s : State ι) (a : ι × Op) : Prop :=
  match a.2 with
  | .scan addr length =>
    s.regions.any (·.overlaps addr length) = true ∨ ∀ j, ∀ r ∈ (s.place j).range, Beside r (addr, length)
  | .regMr _ => True
  | .pushBack => True

theorem beside_of_not_overlaps {entry : MemoryRegion}
    (h : entry.overlaps addr length = false) : Beside (entry.addr, entry.length) (addr, length) := by
  simp only [overlaps, Bool.or_eq_false_iff, decide_eq_false_iff_not] at h
  simp only [Beside]
  omega

theorem Beside.apart {a b : MemoryRegion} (h : Beside (a.addr, a.length) (b.addr, b.length)) : a.Apart b := by
  rintro x ⟨ha, hb⟩
  obtain ⟨halo, hahi⟩ := of_decide_eq_true ha
  obtain ⟨hblo, hbhi⟩ := of_decide_eq_true hb
  simp only [Beside] at h
  omega

/-- The table is well-formed, every range held has an address and meets no region, and no two threads hold ranges
that meet. -/
structure Inv (s : State ι) : Prop where
  table : Table s.regions
  proper : ∀ i, ∀ r ∈ (s.place i).range, 1 ≤ r.2
  free : ∀ i, ∀ r ∈ (s.place i).range, ∀ entry ∈ s.regions, Beside (entry.addr, entry.length) r
  held : ∀ i j, i ≠ j → ∀ r ∈ (s.place i).range, ∀ r' ∈ (s.place j).range, Beside r r'

omit [DecidableEq ι] in
theorem inv_init : Inv (init ι) where
  table := Table.nil
  proper := fun _ _ hr => by cases hr
  free := fun _ _ hr => by cases hr
  held := fun _ _ _ _ hr => by cases hr

/-- A thread that lets go of its range, or keeps it, or takes one that nobody has. -/
theorem Inv.move (h : Inv s) {p : Place}
    (hp : ∀ r ∈ p.range, 1 ≤ r.2 ∧ (∀ entry ∈ s.regions, Beside (entry.addr, entry.length) r) ∧
      ∀ j, j ≠ i → ∀ r' ∈ (s.place j).range, Beside r' r) : Inv (s.move i p) where
  table := h.table
  proper := by
    intro j r hr
    rw [State.place_move] at hr
    split at hr
    · exact (hp r hr).1
    · exact h.proper j r hr
  free := by
    intro j r hr
    rw [State.place_move] at hr
    split at hr
    · exact (hp r hr).2.1
    · exact h.free j r hr
  held := by
    intro j j' hne r hr r' hr'
    rw [State.place_move] at hr hr'
    split at hr <;> split at hr'
    · rename_i hj hj'
      exact absurd (hj.trans hj'.symm) hne
    · rename_i hj hj'
      exact ((hp r hr).2.2 j' hj' r' hr').symm
    · rename_i hj hj'
      exact (hp r' hr').2.2 j hj r hr
    · exact h.held j j' hne r hr r' hr'

theorem Inv.step {s' : State ι} {a : ι × Op} (h : Inv s) (hprop : Proper s a) (hclear : Clear s a)
    (hs : step s a = some s') : Inv s' := by
  obtain ⟨j, op⟩ := a
  rcases step_cases hs with ⟨rfl, -⟩ | ⟨rfl, -⟩ | ⟨addr, length, hop, hfree, rfl⟩ | ⟨addr, length, k, hj, -, rfl⟩ |
    ⟨mr, hj, -, rfl⟩
  · exact h
  · exact h.move fun r hr => by cases hr
  · -- the scan: the table has no such range, and neither has a thread
    cases hop
    have hnone : ∀ j', ∀ r ∈ (s.place j').range, Beside r (addr, length) := by
      rcases hclear with hany | hnone
      · obtain ⟨entry, he, hover⟩ := List.any_eq_true.1 hany
        rw [hfree entry he] at hover
        cases hover
      · exact hnone
    refine h.move ?_
    rintro r ⟨⟩
    exact ⟨hprop, fun entry he => beside_of_not_overlaps (hfree entry he),
      fun j' _ r' hr' => hnone j' r' hr'⟩
  · -- the verb: the same range is held
    have hr : (addr, length) ∈ (s.place j).range := by rw [hj]; rfl
    refine h.move ?_
    rintro r ⟨⟩
    exact ⟨h.proper j _ hr, h.free j _ hr, fun j' hne r' hr' => h.held j' j hne r' hr' _ hr⟩
  · -- the `push_back`: the range goes over to the table
    have hr : (mr.addr, mr.length) ∈ (s.place j).range := by rw [hj]; rfl
    have hidle : Inv (s.move j .idle) := h.move fun r hr => by cases hr
    refine ⟨h.table.append (h.proper j _ hr) fun entry he => (h.free j _ hr entry he).apart, hidle.proper, ?_,
      hidle.held⟩
    intro j' r' hr' entry he
    rcases List.mem_append.1 he with he | he
    · exact hidle.free j' r' hr' entry he
    · rw [List.mem_singleton.1 he]
      rw [State.place_move] at hr'
      split at hr'
      · cases hr'
      · rename_i hne
        exact (h.held j' j hne r' hr' _ hr).symm

/-- When no scan crosses a range that another thread holds, the regions are disjoint in every state. -/
theorem disjoint_of_clear {as : List (ι × Op)} {s : State ι}
    (h : Runs.Run step (fun s a => Proper s a ∧ Clear s a) (init ι) as s) : s.regions.Pairwise Apart :=
  (h.invariant (P := Inv) inv_init fun _ _ _ hi hok hs => hi.step hok.1 hok.2 hs).table.apart

/-! ## Scans that cross -/

/-- A thread that holds a range can push it. -/
theorem exists_push {r : Nat × Nat} (hr : r ∈ (s.place i).range) :
    ∃ as mr p, Runs.Run step Proper s as { s.move i p with regions := s.regions ++ [mr] } ∧
    r = (mr.addr, mr.length) := by
  cases hp : s.place i with
  | idle => rw [hp] at hr; cases hr
  | scanned addr length =>
    rw [hp] at hr
    obtain rfl := Option.some.inj hr
    refine ⟨[(i, .regMr (some .sample)), (i, .pushBack)], ⟨.sample, addr, length⟩, .idle,
      .cons trivial (step_regMr hp .sample) (.cons trivial (step_pushBack (Function.update_self ..)) ?_), rfl⟩
    simp only [State.move, Function.update_idem]
    exact .nil
  | made mr =>
    rw [hp] at hr
    exact ⟨_, mr, .idle, .cons (e := (i, Op.pushBack)) trivial (step_pushBack hp) .nil, (Option.some.inj hr).symm⟩

/-- A scan that crosses a range held by another thread leads to a table with two regions that overlap. -/
theorem overlap_of_unclear_scan (addr length : Nat) (hi : s.place i = .idle) (hl : 1 ≤ length)
    (hfree : ∀ entry ∈ s.regions, entry.overlaps addr length = false) {j : ι} {r : Nat × Nat}
    (hr : r ∈ (s.place j).range) (hpos : 1 ≤ r.2) (hmeet : ¬Beside r (addr, length)) :
    ∃ as s', Runs.Run step Proper s as s' ∧ ¬s'.regions.Pairwise Apart := by
  have hij : j ≠ i := by
    rintro rfl
    rw [hi] at hr
    cases hr
  have hscan : Runs.Run step Proper s [(i, .scan addr length)] (s.move i (.scanned addr length)) :=
    .cons hl (step_scan hi hfree) .nil
  -- the other thread pushes, then this one
  obtain ⟨as, mr, p, hpush, rfl⟩ := exists_push (s := s.move i (.scanned addr length)) (i := j) (r := r)
    (by rw [State.place_move, if_neg hij]; exact hr)
  obtain ⟨as', mr', p', hpush', hrange⟩ := exists_push (i := i) (r := (addr, length))
    (s := { (s.move i (.scanned addr length)).move j p with regions := s.regions ++ [mr] })
    (by
      show _ ∈ (((s.move i (.scanned addr length)).move j p).place i).range
      rw [State.place_move, if_neg hij.symm, State.place_move, if_pos rfl]
      rfl)
  refine ⟨_, _, (hscan.append hpush).append hpush', fun hpw => ?_⟩
  obtain ⟨-, -, hall⟩ := List.pairwise_append.1 hpw
  have hapart := hall mr (List.mem_append_right _ (List.mem_singleton_self _)) mr' (List.mem_singleton_self _)
  rw [hrange] at hmeet
  obtain ⟨rfl, rfl⟩ := Prod.mk.inj hrange
  simp only [Beside] at hmeet hpos
  -- the larger of the two starts is in both
  refine hapart (max mr.addr mr'.addr) ⟨decide_eq_true ?_, decide_eq_true ?_⟩ <;> omega

end Step

/-- Two threads scan for one range before either pushes it. -/
theorem overlap_after_two_scans : ∃ (as : List (Fin 2 × Op)) (s : State (Fin 2)),
    Runs.Run step Proper (init (Fin 2)) as s ∧ ¬s.regions.Pairwise Apart := by
  have hfirst : Runs.Run step Proper (init (Fin 2)) [(0, .scan 4096 64)]
      ((init (Fin 2)).move 0 (.scanned 4096 64)) :=
    .cons (show 1 ≤ 64 by decide) (step_scan rfl fun _ he => (List.not_mem_nil he).elim) .nil
  obtain ⟨as, s, hrun, hover⟩ := overlap_of_unclear_scan (s := (init (Fin 2)).move 0 (.scanned 4096 64)) (i := 1)
    (j := 0) (r := (4096, 64)) 4096 64 rfl (by decide) (fun _ he => (List.not_mem_nil he).elim) rfl (by decide)
    (by unfold Beside; decide)
  exact ⟨_, s, hfirst.append hrun, hover⟩

instance (s : State ι) : ∀ a : ι × Op, Decidable (Proper s a)
  | (_, .scan _ length) => inferInstanceAs (Decidable (1 ≤ length))
  | (_, .regMr _) => .isTrue trivial
  | (_, .pushBack) => .isTrue trivial

instance (r r' : Nat × Nat) : Decidable (Beside r r') :=
  inferInstanceAs (Decidable (r.1 + r.2 ≤ r'.1 ∨ r'.1 + r'.2 ≤ r.1))

instance [Fintype ι] (s : State ι) : ∀ a : ι × Op, Decidable (Clear s a)
  | (_, .scan addr length) => inferInstanceAs (Decidable (s.regions.any (·.overlaps addr length) = true ∨
      ∀ j, ∀ r ∈ (s.place j).range, Beside r (addr, length)))
  | (_, .regMr _) => .isTrue trivial
  | (_, .pushBack) => .isTrue trivial

/-- Two threads may be in the call at once when their ranges lie beside each other. -/
theorem disjoint_after_crossing_calls : ∃ s : State (Fin 2),
    Runs.Run step (fun s a => Proper s a ∧ Clear s a) (init (Fin 2))
      [(0, .scan 4096 64), (1, .scan 4160 64), (1, .regMr (some .sample)), (0, .regMr (some .sample)), (1, .pushBack),
        (0, .pushBack)] s ∧
      s.regions.map (·.addr) = [4160, 4096] ∧ s.regions.Pairwise Apart := by
  obtain ⟨s, hrun, htest⟩ := Runs.exists_run_of_exec step (fun s a => Proper s a ∧ Clear s a) (init (Fin 2))
    [(0, .scan 4096 64), (1, .scan 4160 64), (1, .regMr (some .sample)), (0, .regMr (some .sample)), (1, .pushBack),
      (0, .pushBack)] (fun s => decide (s.regions.map (·.addr) = [4160, 4096])) (by decide)
  exact ⟨s, hrun, of_decide_eq_true htest, disjoint_of_clear hrun⟩

end RapidTransfer.MemoryRegion.Concurrent
