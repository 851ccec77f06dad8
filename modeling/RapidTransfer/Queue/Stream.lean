/-
The secondary queue as a byte stream, over any interleaving of `push` and `popFragment`. What was popped and what the
slices still hold from `offset_` on is what was pushed, address by address; and the fragments are cut buffer by buffer,
all of the fragment size but the last of each. So the lengths of the fragments follow from the lengths of the buffers
alone, however they were grouped into calls: two sides that push buffers of the same lengths cut them alike.
-/
import RapidTransfer.Lib.Runs
import RapidTransfer.Queue.Secondary

namespace RapidTransfer

/-! ## Addresses -/

/-- The addresses of a buffer, in order. -/
def Buffer.range (b : Buffer) : List Nat := List.range' b.addr b.length

/-- The fragments of one buffer: together they are the buffer, each lies inside it, none is longer than the fragment
size, and only the last may be shorter. -/
structure IsCut (fragmentSize : Nat) (b : Buffer) (cut : List Buffer) : Prop where
  nonempty : cut ≠ []
  range : cut.flatMap Buffer.range = b.range
  inside : ∀ x ∈ cut, b.addr ≤ x.addr ∧ x.addr + x.length ≤ b.addr + b.length
  size : ∀ x ∈ cut, x.length ≤ fragmentSize
  full : ∀ x ∈ cut.dropLast, x.length = fragmentSize

/-- A buffer that fits is its own cut. -/
theorem isCut_of_le {f : Nat} {b : Buffer} (h : b.length ≤ f) : IsCut f b [b] where
  nonempty := List.cons_ne_nil b []
  range := by simp
  inside := by
    intro x hx
    rw [List.mem_singleton.1 hx]
    exact ⟨le_refl _, le_refl _⟩
  size := by
    intro x hx
    rw [List.mem_singleton.1 hx]
    exact h
  full := fun x hx => by cases hx

/-- A cut of what follows the first fragment, and the first fragment. -/
theorem IsCut.cons {f addr n : Nat} {cut : List Buffer} (hf : f < n) (h : IsCut f ⟨addr + f, n - f⟩ cut) :
    IsCut f ⟨addr, n⟩ (⟨addr, f⟩ :: cut) where
  nonempty := List.cons_ne_nil _ _
  range := by
    rw [List.flatMap_cons, h.range]
    simp only [Buffer.range, List.range'_append_1]
    congr 1
    omega
  inside := by
    intro x hx
    rcases List.mem_cons.1 hx with rfl | hx
    · exact ⟨le_refl _, by dsimp only; omega⟩
    · have := h.inside x hx
      dsimp only at this ⊢
      omega
  size := by
    intro x hx
    rcases List.mem_cons.1 hx with rfl | hx
    · exact le_refl _
    · exact h.size x hx
  full := by
    intro x hx
    rw [List.dropLast_cons_of_ne_nil h.nonempty] at hx
    rcases List.mem_cons.1 hx with rfl | hx
    · rfl
    · exact h.full x hx

theorem isCut_pieces {f : Nat} (hf : 0 < f) (addr n : Nat) : IsCut f ⟨addr, n⟩ (pieces f addr n) := by
  induction n using Nat.strong_induction_on generalizing addr with
  | _ n ih =>
    rw [pieces_eq hf]
    split
    · rename_i hle
      rw [min_eq_right hle]
      exact isCut_of_le hle
    · rename_i hgt
      rw [min_eq_left (by omega)]
      exact (ih (n - f) (by omega) (addr + f)).cons (by omega)

/-- The pieces of the buffers, one cut for each. -/
theorem fragments_eq_flatten {f : Nat} (hf : 0 < f) (bs : List Buffer) :
    ∃ cuts, fragments f bs = cuts.flatten ∧ List.Forall₂ (IsCut f) bs cuts := by
  induction bs with
  | nil => exact ⟨[], rfl, .nil⟩
  | cons b bs ih =>
    obtain ⟨cuts, heq, hcuts⟩ := ih
    exact ⟨pieces f b.addr b.length :: cuts, by rw [fragments_cons, heq, List.flatten_cons],
      .cons (isCut_pieces hf b.addr b.length) hcuts⟩

theorem flatMap_range_fragments {f : Nat} (hf : 0 < f) (bs : List Buffer) :
    (fragments f bs).flatMap Buffer.range = bs.flatMap Buffer.range := by
  induction bs with
  | nil => rfl
  | cons b bs ih => rw [fragments_cons, List.flatMap_append, List.flatMap_cons, ih, (isCut_pieces hf _ _).range]

namespace SecondaryQueue

/-- The addresses the queue still holds: the first slice from `offset_` on and the others. -/
def remainder (q : SecondaryQueue) : List Nat :=
  match q.sliceList with
  | [] => []
  | slice :: rest => Buffer.range ⟨slice.addr + q.offset, slice.length - q.offset⟩ ++ rest.flatMap Buffer.range

/-- They are the addresses of the fragments to come. -/
theorem flatMap_range_pending {q : SecondaryQueue} (hf : 0 < q.fragmentSize) :
    q.pending.flatMap Buffer.range = q.remainder := by
  unfold pending remainder
  cases q.sliceList with
  | nil => rfl
  | cons slice rest =>
    rw [List.flatMap_append, (isCut_pieces hf _ _).range, flatMap_range_fragments hf]

/-! ## Runs -/

/-- A queue with what went in and what came out. -/
structure History where
  queue : SecondaryQueue
  pushed : List Buffer
  popped : List Buffer

inductive Op
  | push (slices : List Buffer)
  | popFragment

def History.start (fragmentSize : Nat) : History := ⟨construct fragmentSize, [], []⟩

/-- One call. A `popFragment` on an empty queue yields no fragment. -/
def History.step (s : History) : Op → Option History
  | .push slices => (s.queue.push slices).map fun r => { s with queue := r.2, pushed := s.pushed ++ slices }
  | .popFragment =>
    if s.queue.hasRemainingFragment then
      some { s with queue := s.queue.popFragment.2, popped := s.popped ++ [s.queue.popFragment.1] }
    else some s

/-- What was popped and what is pending are the fragments of what was pushed. -/
structure Cuts (f : Nat) (s : History) : Prop where
  wf : s.queue.WF
  size : s.queue.fragmentSize = f
  fragments : s.popped ++ s.queue.pending = fragments f s.pushed

theorem cuts_start {f : Nat} (hf : 0 < f) : Cuts f (History.start f) := ⟨construct_wf hf, rfl, rfl⟩

theorem Cuts.step {f : Nat} {s s' : History} {op : Op} (h : Cuts f s) (hs : s.step op = some s') : Cuts f s' := by
  cases op with
  | push slices =>
    obtain ⟨⟨ids, q⟩, hq, rfl⟩ := Option.map_eq_some_iff.1 hs
    obtain ⟨hwf, hpend⟩ := pending_push h.wf hq
    refine ⟨hwf, (push_some hq).1.trans h.size, ?_⟩
    dsimp only
    rw [hpend, ← List.append_assoc, h.fragments, fragments_append, h.size]
  | popFragment =>
    simp only [History.step] at hs
    split at hs
    · rename_i hrem
      cases hs
      obtain ⟨x, xs, hp⟩ := List.exists_cons_of_ne_nil ((hasRemainingFragment_iff h.wf.size).1 hrem)
      obtain ⟨hx, hwf, hxs⟩ := popFragment_spec h.wf hp
      refine ⟨hwf, (popFragment_fields s.queue).2.trans h.size, ?_⟩
      dsimp only
      rw [hx, hxs, List.append_assoc, List.singleton_append, ← hp]
      exact h.fragments
    · cases hs
      exact h

theorem cuts_run {f : Nat} (hf : 0 < f) {ops : List Op} {s : History}
    (h : Runs.Run History.step (fun _ _ => True) (History.start f) ops s) : Cuts f s :=
  h.invariant (P := Cuts f) (cuts_start hf) fun _ _ _ hc _ hs => hc.step hs

/-- After any calls: the addresses popped and those still held are the addresses pushed, in order; the fragments popped
and to come are a cut of each buffer in turn; and their lengths are those that the lengths of the buffers give,
all of them once the queue is empty. -/
theorem stream_preserved {f : Nat} (hf : 1 ≤ f) {ops : List Op} {s : History}
    (h : Runs.Run History.step (fun _ _ => True) (History.start f) ops s) :
    s.popped.flatMap Buffer.range ++ s.queue.remainder = s.pushed.flatMap Buffer.range ∧
    (∃ cuts, s.popped ++ s.queue.pending = cuts.flatten ∧ List.Forall₂ (IsCut f) s.pushed cuts) ∧
    s.popped.map (·.length) <+: fragmentLens f (s.pushed.map (·.length)) ∧
    (s.queue.hasRemainingFragment = false →
      s.popped.map (·.length) = fragmentLens f (s.pushed.map (·.length))) := by
  have hc := cuts_run hf h
  have hlens : s.popped.map (·.length) ++ s.queue.pending.map (·.length) =
      fragmentLens f (s.pushed.map (·.length)) := by
    rw [← List.map_append, hc.fragments, map_length_fragments]
    rfl
  refine ⟨?_, ?_, ⟨_, hlens⟩, ?_⟩
  · rw [← flatMap_range_pending hc.wf.size, ← List.flatMap_append, hc.fragments, flatMap_range_fragments hf]
  · rw [hc.fragments]
    exact fragments_eq_flatten hf s.pushed
  · intro hempty
    have hnil : s.queue.pending = [] := by
      by_contra hne
      rw [(hasRemainingFragment_iff hc.wf.size).2 hne] at hempty
      cases hempty
    rw [← hlens, hnil, List.map_nil, List.append_nil]

/-- Two buffers in two calls, with a fragment taken in between. -/
theorem stream_of_two_buffers : ∃ s, Runs.Run History.step (fun _ _ => True) (History.start 4)
      [.push [⟨100, 6⟩], .popFragment, .push [⟨200, 4⟩], .popFragment] s ∧
    s.popped = [⟨100, 4⟩, ⟨104, 2⟩] ∧
    s.popped.flatMap Buffer.range ++ s.queue.remainder = s.pushed.flatMap Buffer.range := by
  obtain ⟨s, hrun, htest⟩ := Runs.exists_run_of_exec History.step (fun _ _ => True) (History.start 4)
    [.push [⟨100, 6⟩], .popFragment, .push [⟨200, 4⟩], .popFragment]
    (fun s => decide (s.popped = [⟨100, 4⟩, ⟨104, 2⟩])) (by decide)
  exact ⟨s, hrun, of_decide_eq_true htest, (stream_preserved (by decide) hrun).1⟩

end SecondaryQueue

end RapidTransfer
