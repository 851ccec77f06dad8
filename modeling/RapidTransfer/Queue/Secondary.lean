/-
The secondary queue (`SecondaryQueue` of `packet_manager.h`): the user buffers that have no slot in
the primary queue yet, cut into fragments of at most `fragment_size_` bytes as they are popped.

Its specification is a FIFO of fragments. `fragments` is the declarative cutting of a list of
buffers: every buffer gives its pieces at the multiples of the fragment size, a buffer of length
zero one empty piece. `pending` is what a queue still has to yield; `push` appends the fragments of
the pushed buffers to it (`pending_push`) and `popFragment` takes its first element
(`popFragment_spec`).
-/
import RapidTransfer.Packet.Handle

namespace RapidTransfer

/-! ## Cutting buffers -/

/-- The number of pieces of a buffer of `length` bytes. -/
def pieceCount (fragmentSize length : Nat) : Nat := max 1 ((length + fragmentSize - 1) / fragmentSize)

/-- The pieces of one buffer. -/
def pieces (fragmentSize addr length : Nat) : List Buffer :=
  (List.range (pieceCount fragmentSize length)).map fun i =>
    ⟨addr + i * fragmentSize, min fragmentSize (length - i * fragmentSize)⟩

/-- The fragments of a list of buffers, in order. -/
def fragments (fragmentSize : Nat) (buffers : List Buffer) : List Buffer :=
  buffers.flatMap fun b => pieces fragmentSize b.addr b.length

theorem pieceCount_of_le {f n : Nat} (h : n ≤ f) : pieceCount f n = 1 := by
  unfold pieceCount
  rcases Nat.eq_zero_or_pos f with rfl | hf
  · simp
  · have : (n + f - 1) / f ≤ 1 := by
      rw [Nat.div_le_iff_le_mul_add_pred hf]; omega
    omega

theorem pieceCount_of_gt {f n : Nat} (hf : 0 < f) (h : f < n) : pieceCount f n = pieceCount f (n - f) + 1 := by
  unfold pieceCount
  have e : (n + f - 1) / f = (n - f + f - 1) / f + 1 := by
    rw [show n + f - 1 = (n - f + f - 1) + f by omega, Nat.add_div_right _ hf]
  have : 1 ≤ (n - f + f - 1) / f := by
    rw [Nat.one_le_div_iff hf]; omega
  omega

/-- The first piece has the fragment size or all that is left, the others are those of the rest. -/
theorem pieces_eq {f : Nat} (hf : 0 < f) (addr n : Nat) :
    pieces f addr n = ⟨addr, min f n⟩ :: if n ≤ f then [] else pieces f (addr + f) (n - f) := by
  split
  · rename_i h
    simp [pieces, pieceCount_of_le h]
  · rename_i h
    unfold pieces
    rw [pieceCount_of_gt hf (by omega), List.range_succ_eq_map, List.map_cons, List.map_map]
    simp only [zero_mul, Nat.add_zero, Nat.sub_zero, List.cons.injEq, true_and]
    apply List.map_congr_left
    intro i _
    simp only [Function.comp, Nat.succ_eq_add_one, add_mul, one_mul, Buffer.mk.injEq]
    constructor <;> omega

@[simp] theorem length_pieces (f addr n : Nat) : (pieces f addr n).length = pieceCount f n := by simp [pieces]

@[simp] theorem fragments_nil (f : Nat) : fragments f [] = [] := rfl

@[simp] theorem fragments_cons (f : Nat) (b : Buffer) (bs : List Buffer) :
    fragments f (b :: bs) = pieces f b.addr b.length ++ fragments f bs := rfl

@[simp] theorem fragments_append (f : Nat) (bs cs : List Buffer) :
    fragments f (bs ++ cs) = fragments f bs ++ fragments f cs := by simp [fragments]

/-- The lengths of the fragments depend on the lengths of the buffers only. -/
theorem map_length_fragments (f : Nat) (bs : List Buffer) :
    (fragments f bs).map (·.length) =
      (bs.map (·.length)).flatMap fun n => (List.range (pieceCount f n)).map fun i => min f (n - i * f) := by
  induction bs with
  | nil => rfl
  | cons b bs ih =>
    simp only [fragments_cons, List.map_append, List.map_cons, List.flatMap_cons, ih]
    simp [pieces, Function.comp_def]

/-- The fragment lengths of a sequence of buffer lengths. -/
def fragmentLens (f : Nat) (lens : List Nat) : List Nat :=
  lens.flatMap fun n => (List.range (pieceCount f n)).map fun i => min f (n - i * f)

theorem fragmentLens_prefix {f : Nat} {bufs : List Buffer} {lens : List Nat} (h : bufs.map (·.length) <+: lens) :
    (fragments f bufs).map (·.length) <+: fragmentLens f lens := by
  rw [map_length_fragments]
  obtain ⟨rest, rfl⟩ := h
  exact ⟨fragmentLens f rest, by simp [fragmentLens]⟩

/-- Fragments of the same index have the same length when the buffer lengths are prefixes of one
sequence. -/
theorem length_eq_of_prefix {f : Nat} {bufs bufs' : List Buffer} {lens : List Nat}
    (h : bufs.map (·.length) <+: lens) (h' : bufs'.map (·.length) <+: lens) {i : Nat} {b b' : Buffer}
    (hb : (fragments f bufs)[i]? = some b) (hb' : (fragments f bufs')[i]? = some b') : b.length = b'.length := by
  have key : ∀ {l : List Buffer} {x : Buffer}, l.map (·.length) <+: lens → (fragments f l)[i]? = some x →
      (fragmentLens f lens)[i]? = some x.length := by
    intro l x hl hx
    have hm : ((fragments f l).map (·.length))[i]? = some x.length := by rw [List.getElem?_map, hx]; rfl
    obtain ⟨rest, hr⟩ := fragmentLens_prefix (f := f) hl
    rw [← hr, List.getElem?_append_left (List.getElem?_eq_some_iff.1 hm).1]; exact hm
  have e := (key h hb).symm.trans (key h' hb')
  exact Option.some.inj e

/-- The buffers have the lengths of a sequence, from its start. -/
def HasLengths (lens : Nat → Nat) (bufs : List Buffer) : Prop :=
  bufs.map (·.length) = (List.range bufs.length).map lens

instance (lens : Nat → Nat) (bufs : List Buffer) : Decidable (HasLengths lens bufs) :=
  inferInstanceAs (Decidable (_ = _))

namespace HasLengths

variable {lens : Nat → Nat} {bufs more : List Buffer}

theorem nil (lens : Nat → Nat) : HasLengths lens [] := rfl

theorem map_prefix (h : HasLengths lens bufs) {n : Nat} (hn : bufs.length ≤ n) :
    bufs.map (·.length) <+: (List.range n).map lens := by
  rw [h]
  refine List.IsPrefix.map lens ?_
  rw [List.prefix_iff_eq_take, List.length_range, List.take_range, min_eq_left hn]

theorem left (h : HasLengths lens (bufs ++ more)) : HasLengths lens bufs := by
  unfold HasLengths at h ⊢
  rw [List.length_append, List.range_add, List.map_append, List.map_append] at h
  exact List.append_inj_left h (by simp)

/-- Lists that go through one sequence are both initial parts of one list. -/
theorem common (h : HasLengths lens bufs) (h' : HasLengths lens more) :
    ∃ all, bufs.map (·.length) <+: all ∧ more.map (·.length) <+: all :=
  ⟨_, h.map_prefix (le_max_left _ _), h'.map_prefix (le_max_right _ _)⟩

end HasLengths

/-- Fragments of buffers with a non-null address have a non-null address. -/
theorem addr_ne_zero_of_mem_fragments {f : Nat} {bs : List Buffer} (h : ∀ b ∈ bs, b.addr ≠ 0) :
    ∀ x ∈ fragments f bs, x.addr ≠ 0 := by
  intro x hx
  simp only [fragments, List.mem_flatMap, pieces, List.mem_map] at hx
  obtain ⟨b, hb, i, -, rfl⟩ := hx
  have := h b hb
  simp only; omega

/-! ## The queue -/

structure SecondaryQueue where
  sliceList : List Buffer
  offset : Nat
  fragmentId : Nat
  fragmentSize : Nat
  deriving DecidableEq, Repr

namespace SecondaryQueue

def construct (fragmentSize : Nat) : SecondaryQueue := ⟨[], 0, 0, fragmentSize⟩

def hasRemainingFragment (q : SecondaryQueue) : Bool := !q.sliceList.isEmpty

def popFragment (q : SecondaryQueue) : Buffer × SecondaryQueue :=
  match q.sliceList with
  | [] => (⟨0, 0⟩, q)
  | slice :: rest =>
    let addr := slice.addr + q.offset
    let length := min q.fragmentSize (slice.length - q.offset)
    if q.offset + length = slice.length then (⟨addr, length⟩, { q with sliceList := rest, offset := 0 })
    else (⟨addr, length⟩, { q with offset := q.offset + length })

/-- What a buffer adds to `fragment_id_`: a ceiling division in 64-bit arithmetic. -/
def countOf (fragmentSize : Nat) (entry : Buffer) : Nat :=
  (entry.length + fragmentSize - 1) % 2 ^ 64 / fragmentSize

/-- `push`, with the fragment ids before and after; `fragment_id_` has 64 bits. The division stops the
process when `fragment_size_` is zero and there is a buffer to count (`none`). -/
def push (q : SecondaryQueue) (slices : List Buffer) : Option ((Nat × Nat) × SecondaryQueue) :=
  if q.fragmentSize = 0 ∧ slices ≠ [] then none
  else
    let endId := (q.fragmentId + (slices.map (countOf q.fragmentSize)).sum) % 2 ^ 64
    some ((q.fragmentId, endId), { q with sliceList := q.sliceList ++ slices, fragmentId := endId })

/-! ## The queue as a FIFO of fragments -/

/-- The fragments still to be popped. -/
def pending (q : SecondaryQueue) : List Buffer :=
  match q.sliceList with
  | [] => []
  | s :: rest => pieces q.fragmentSize (s.addr + q.offset) (s.length - q.offset) ++ fragments q.fragmentSize rest

@[simp] theorem pending_construct (f : Nat) : (construct f).pending = [] := rfl

/-- The offset is inside the first buffer, and zero when that is empty or there is none. -/
structure WF (q : SecondaryQueue) : Prop where
  size : 0 < q.fragmentSize
  offset : q.offset = 0 ∨ ∃ s rest, q.sliceList = s :: rest ∧ q.offset < s.length

theorem construct_wf {f : Nat} (hf : 0 < f) : (construct f).WF := ⟨hf, .inl rfl⟩

theorem pending_of_offset_zero {q : SecondaryQueue} (h : q.offset = 0) :
    q.pending = fragments q.fragmentSize q.sliceList := by
  unfold pending
  cases q.sliceList with
  | nil => rfl
  | cons s rest => simp [h]

theorem hasRemainingFragment_iff {q : SecondaryQueue} (hf : 0 < q.fragmentSize) :
    q.hasRemainingFragment = true ↔ q.pending ≠ [] := by
  unfold hasRemainingFragment pending
  cases q.sliceList with
  | nil => simp
  | cons s rest =>
    show _ ↔ pieces _ _ _ ++ _ ≠ []
    rw [pieces_eq hf]; simp

theorem popFragment_fields (q : SecondaryQueue) :
    (q.popFragment).2.fragmentId = q.fragmentId ∧ (q.popFragment).2.fragmentSize = q.fragmentSize := by
  unfold popFragment
  cases q.sliceList with
  | nil => exact ⟨rfl, rfl⟩
  | cons s rest => simp only; split <;> exact ⟨rfl, rfl⟩

/-- `popFragment` takes the first pending fragment. -/
theorem popFragment_spec {q : SecondaryQueue} (hq : q.WF) {x : Buffer} {xs : List Buffer}
    (h : q.pending = x :: xs) :
    (q.popFragment).1 = x ∧ (q.popFragment).2.WF ∧ (q.popFragment).2.pending = xs := by
  have hf := hq.size
  unfold pending at h
  unfold popFragment
  rcases hs : q.sliceList with _ | ⟨s, rest⟩
  · rw [hs] at h; cases h
  · have hoff : q.offset ≤ s.length := by
      rcases hq.offset with h0 | ⟨s', rest', hs', hlt⟩
      · omega
      · rw [hs] at hs'; cases hs'; omega
    simp only [hs] at h
    rw [pieces_eq hf, List.cons_append, List.cons.injEq] at h
    obtain ⟨rfl, hxs⟩ := h
    simp only
    -- the buffer is used up exactly when what is left of it fits in one fragment
    by_cases hle : s.length - q.offset ≤ q.fragmentSize
    · rw [if_pos (by omega)]
      rw [if_pos hle, List.nil_append] at hxs
      exact ⟨rfl, ⟨hf, .inl rfl⟩, by rw [← hxs]; exact pending_of_offset_zero rfl⟩
    · rw [if_neg (by omega)]
      rw [if_neg hle] at hxs
      refine ⟨rfl, ⟨hf, .inr ⟨s, rest, rfl, ?_⟩⟩, ?_⟩
      · simp only; omega
      · rw [← hxs]
        simp only [pending]
        congr 2 <;> omega

/-- `pending` is what `popFragment` would yield: a queue has a fragment left after `n` pops exactly when there are
more than `n`. -/
theorem hasRemainingFragment_iterate : ∀ (n : Nat) (q : SecondaryQueue), q.WF →
    (((·.popFragment.2)^[n] q).hasRemainingFragment = true ↔ n < q.pending.length)
  | 0, q, hq => by
    rw [Function.iterate_zero, id_eq, hasRemainingFragment_iff hq.size, ne_eq, ← List.length_eq_zero_iff]
    omega
  | n + 1, q, hq => by
    rw [Function.iterate_succ_apply]
    cases hp : q.pending with
    | nil =>
      -- nothing is left, and popping leaves it so
      have hstay : q.popFragment.2 = q := by
        have hnil : q.sliceList = [] := by
          by_contra hne
          have : q.hasRemainingFragment = true := by simp [hasRemainingFragment, hne]
          exact (hasRemainingFragment_iff hq.size).1 this hp
        simp [popFragment, hnil]
      rw [hstay, hasRemainingFragment_iterate n q hq, hp]
      simp
    | cons x xs =>
      obtain ⟨-, hwf, hpend⟩ := popFragment_spec hq hp
      rw [hasRemainingFragment_iterate n _ hwf, hpend, List.length_cons]
      omega

theorem push_eq {q : SecondaryQueue} (hf : 0 < q.fragmentSize) (slices : List Buffer) :
    q.push slices = some ((q.fragmentId, (q.fragmentId + (slices.map (countOf q.fragmentSize)).sum) % 2 ^ 64),
      { q with sliceList := q.sliceList ++ slices,
               fragmentId := (q.fragmentId + (slices.map (countOf q.fragmentSize)).sum) % 2 ^ 64 }) := by
  unfold push
  rw [if_neg (by omega)]

theorem push_some {q q' : SecondaryQueue} {slices : List Buffer} {ids : Nat × Nat}
    (h : q.push slices = some (ids, q')) :
    q'.fragmentSize = q.fragmentSize ∧ q'.fragmentId = ids.2 ∧
      ids.2 = (q.fragmentId + (slices.map (countOf q.fragmentSize)).sum) % 2 ^ 64 := by
  unfold push at h
  split at h
  · cases h
  · cases h; exact ⟨rfl, rfl, rfl⟩

/-- Without room for payload only the empty list can be pushed. -/
theorem push_of_size_zero {q q' : SecondaryQueue} (hz : q.fragmentSize = 0) {slices : List Buffer} {ids : Nat × Nat}
    (h : q.push slices = some (ids, q')) :
    slices = [] ∧ q' = { q with fragmentId := q.fragmentId % 2 ^ 64 } := by
  unfold push at h
  split at h
  · cases h
  · rename_i hne
    have hnil : slices = [] := by
      by_contra hs
      exact hne ⟨hz, hs⟩
    subst hnil
    cases h
    simp

/-- `push` appends the fragments of the pushed buffers. -/
theorem pending_push {q q' : SecondaryQueue} (hq : q.WF) {slices : List Buffer} {ids : Nat × Nat}
    (h : q.push slices = some (ids, q')) :
    q'.WF ∧ q'.pending = q.pending ++ fragments q.fragmentSize slices := by
  rw [push_eq hq.size] at h
  cases h
  have hnil : q.sliceList = [] → q.offset = 0 := by
    intro hn
    rcases hq.offset with h0 | ⟨s, rest, hs, -⟩
    · exact h0
    · rw [hn] at hs; cases hs
  refine ⟨⟨hq.size, ?_⟩, ?_⟩
  · rcases hq.offset with h0 | ⟨s, rest, hs, hlt⟩
    · exact .inl h0
    · exact .inr ⟨s, rest ++ slices, by simp [hs], hlt⟩
  · unfold pending
    cases hs : q.sliceList with
    | nil =>
      simp only [List.nil_append, hnil hs, Nat.add_zero, Nat.sub_zero]
      cases slices <;> rfl
    | cons s rest => simp

/-- `fragment_id_` never runs ahead of the number of fragments. -/
theorem countOf_le (f : Nat) (b : Buffer) : countOf f b ≤ pieceCount f b.length := by
  unfold countOf pieceCount
  exact le_trans (Nat.div_le_div_right (Nat.mod_le _ _)) (le_max_right _ _)

theorem sum_countOf_le (f : Nat) (bs : List Buffer) :
    (bs.map (countOf f)).sum ≤ (fragments f bs).length := by
  induction bs with
  | nil => simp
  | cons b bs ih =>
    have := countOf_le f b
    simp only [List.map_cons, List.sum_cons, fragments_cons, List.length_append, length_pieces]
    omega

end SecondaryQueue

end RapidTransfer
