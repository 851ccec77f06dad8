/-
Buffers and their fragments. A transfer is proved fragment by fragment, and users see buffers: this module goes from
the ones to the others. The fragments of a buffer stand together in the list of all fragments, at a place that depends
only on the lengths of the buffers before it (`getElem?_fragments`); fragments of buffers that do not overlap do not
overlap (`NoOverlap.fragments`); and two buffers hold the same bytes when their fragments do (`bytesAt_of_pieces`).
-/
import RapidTransfer.Delivery.Network
import RapidTransfer.Queue.Stream

namespace RapidTransfer

/-! ## Bytes -/

theorem bytesAt_eq_iff {m m' : Nat → UInt8} {a a' n : Nat} :
    bytesAt m a n = bytesAt m' a' n ↔ ∀ k < n, m (a + k) = m' (a' + k) := by
  unfold bytesAt
  rw [List.map_inj_left]
  exact forall_congr' fun k => by rw [List.mem_range]

/-- A range inside another has the same bytes too. -/
theorem bytesAt_inside {m m' : Nat → UInt8} {a n b k : Nat} (h : bytesAt m a n = bytesAt m' a n) (hlo : a ≤ b)
    (hhi : b + k ≤ a + n) : bytesAt m b k = bytesAt m' b k := by
  rw [bytesAt_eq_iff] at h ⊢
  intro i hi
  have := h (b - a + i) (by omega)
  rwa [show a + (b - a + i) = b + i by omega] at this

/-- A fragment lies inside the buffer it was cut from. -/
theorem exists_of_mem_fragments {f : Nat} {bufs : List Buffer} {x : Buffer} (hf : 0 < f) (hx : x ∈ fragments f bufs) :
    ∃ b ∈ bufs, b.addr ≤ x.addr ∧ x.addr + x.length ≤ b.addr + b.length := by
  obtain ⟨b, hb, hx⟩ := List.mem_flatMap.1 hx
  exact ⟨b, hb, (isCut_pieces hf b.addr b.length).inside x hx⟩

theorem fragments_untouched {f : Nat} {m m' : Nat → UInt8} {bufs : List Buffer} (hf : 0 < f)
    (h : ∀ b ∈ bufs, bytesAt m' b.addr b.length = bytesAt m b.addr b.length) :
    ∀ x ∈ fragments f bufs, bytesAt m' x.addr x.length = bytesAt m x.addr x.length := by
  intro x hx
  obtain ⟨b, hb, hlo, hhi⟩ := exists_of_mem_fragments hf hx
  exact bytesAt_inside (h b hb) hlo hhi

/-! ## The place of a fragment -/

theorem getElem?_pieces {f addr n i : Nat} {x : Buffer} :
    (pieces f addr n)[i]? = some x ↔ i < pieceCount f n ∧ x = ⟨addr + i * f, min f (n - i * f)⟩ := by
  unfold pieces
  rw [List.getElem?_map, Option.map_eq_some_iff]
  constructor
  · rintro ⟨j, hj, rfl⟩
    obtain ⟨hlt, rfl⟩ := List.getElem?_eq_some_iff.1 hj
    rw [List.length_range] at hlt
    exact ⟨hlt, by rw [List.getElem_range]⟩
  · rintro ⟨hlt, rfl⟩
    exact ⟨i, List.getElem?_range hlt, rfl⟩

theorem length_fragments (f : Nat) (bufs : List Buffer) :
    (fragments f bufs).length = (fragmentLens f (bufs.map (·.length))).length := by
  rw [← List.length_map (f := (·.length : Buffer → Nat)), map_length_fragments]
  rfl

/-- The fragments of a buffer follow those of the buffers before it. -/
theorem getElem?_fragments {f k i : Nat} {bufs : List Buffer} {b x : Buffer} (hb : bufs[k]? = some b)
    (hx : (pieces f b.addr b.length)[i]? = some x) :
    (fragments f bufs)[(fragmentLens f ((bufs.map (·.length)).take k)).length + i]? = some x := by
  obtain ⟨hlt, rfl⟩ := List.getElem?_eq_some_iff.1 hb
  have hsplit : fragments f bufs =
      fragments f (bufs.take k) ++ (pieces f bufs[k].addr bufs[k].length ++ fragments f (bufs.drop (k + 1))) := by
    rw [← fragments_cons, ← fragments_append, ← List.drop_eq_getElem_cons hlt, List.take_append_drop]
  have hlen : (fragmentLens f ((bufs.map (·.length)).take k)).length = (fragments f (bufs.take k)).length := by
    rw [length_fragments, List.map_take]
  have hi := (List.getElem?_eq_some_iff.1 hx).1
  rw [hlen, hsplit, List.getElem?_append_right (Nat.le_add_right _ _), Nat.add_sub_cancel_left,
    List.getElem?_append_left hi]
  exact hx

/-- Every fragment has such a place. -/
theorem exists_of_getElem?_fragments {f : Nat} : ∀ {bufs : List Buffer} {j : Nat} {x : Buffer},
    (fragments f bufs)[j]? = some x → ∃ k b i, bufs[k]? = some b ∧ (pieces f b.addr b.length)[i]? = some x ∧
      j = (fragmentLens f ((bufs.map (·.length)).take k)).length + i
  | [], j, x, h => by cases h
  | b :: bufs, j, x, h => by
    rw [fragments_cons] at h
    rcases Nat.lt_or_ge j (pieces f b.addr b.length).length with hlt | hge
    · rw [List.getElem?_append_left hlt] at h
      exact ⟨0, b, j, rfl, h, (Nat.zero_add j).symm⟩
    · rw [List.getElem?_append_right hge] at h
      obtain ⟨k, b', i, hb', hx, hj⟩ := exists_of_getElem?_fragments h
      refine ⟨k + 1, b', i, hb', hx, ?_⟩
      have hcount : (fragmentLens f [b.length]).length = (pieces f b.addr b.length).length := by
        simp [fragmentLens]
      rw [List.map_cons, List.take_succ_cons, ← List.singleton_append, fragmentLens, List.flatMap_append,
        List.length_append]
      change j = (fragmentLens f [b.length]).length + (fragmentLens f _).length + i
      omega

theorem length_fragmentLens_take_succ (f : Nat) {lens : List Nat} {k : Nat} (hk : k < lens.length) :
    (fragmentLens f (lens.take (k + 1))).length = (fragmentLens f (lens.take k)).length + pieceCount f lens[k] := by
  rw [← List.take_append_getElem hk, fragmentLens, List.flatMap_append, List.length_append, List.flatMap_singleton,
    List.length_map, List.length_range]
  rfl

/-- Where the fragments go beyond those of `k` buffers, there is a buffer `k`. -/
theorem exists_buffer {f k : Nat} {bufs : List Buffer} {lens : List Nat} (hb : bufs.map (·.length) <+: lens)
    (hk : k < lens.length) (hn : (fragmentLens f (lens.take (k + 1))).length ≤ (fragments f bufs).length) :
    ∃ b, bufs[k]? = some b ∧ b.length = lens[k] := by
  have hlt : k < bufs.length := by
    by_contra hge
    -- all of them are among the first `k`
    have hall : bufs.map (·.length) <+: lens.take k := by
      rw [List.prefix_take_iff]
      exact ⟨hb, by simpa using Nat.le_of_not_lt hge⟩
    have hle := ( fragmentLens_prefix (f := f) hall).length_le
    rw [List.length_map] at hle
    have hone : 1 ≤ pieceCount f lens[k] := le_max_left _ _
    rw [length_fragmentLens_take_succ f hk] at hn
    omega
  refine ⟨bufs[k], List.getElem?_eq_getElem hlt, ?_⟩
  have hget := hb.getElem (i := k) (by simpa using hlt)
  rwa [List.getElem_map] at hget

/-! ## Overlaps -/

theorem NoOverlap.left {bufs more : List Buffer} (h : NoOverlap (bufs ++ more)) : NoOverlap bufs := by
  intro i j a b hij ha hb
  refine h hij ?_ ?_
  · rw [List.getElem?_append_left (List.getElem?_eq_some_iff.1 ha).1]
    exact ha
  · rw [List.getElem?_append_left (List.getElem?_eq_some_iff.1 hb).1]
    exact hb

/-- The pieces of one buffer follow one another. -/
theorem pieces_apart {f addr n i j : Nat} {x y : Buffer} (hij : i < j) (hx : (pieces f addr n)[i]? = some x)
    (hy : (pieces f addr n)[j]? = some y) : x.addr + x.length ≤ y.addr := by
  obtain ⟨-, rfl⟩ := getElem?_pieces.1 hx
  obtain ⟨-, rfl⟩ := getElem?_pieces.1 hy
  have hmul : (i + 1) * f ≤ j * f := Nat.mul_le_mul_right f hij
  rw [Nat.add_mul, Nat.one_mul] at hmul
  simp only
  omega

theorem NoOverlap.fragments {f : Nat} {bufs : List Buffer} (hf : 0 < f) (h : NoOverlap bufs) :
    NoOverlap (fragments f bufs) := by
  intro i j x y hij hx hy
  obtain ⟨k, b, i', hb, hpx, rfl⟩ := exists_of_getElem?_fragments hx
  obtain ⟨k', b', j', hb', hpy, rfl⟩ := exists_of_getElem?_fragments hy
  by_cases hk : k = k'
  · -- of one buffer: they follow one another
    subst hk
    obtain rfl := Option.some.inj (hb.symm.trans hb')
    rcases Nat.lt_or_ge i' j' with hlt | hge
    · exact .inl (pieces_apart hlt hpx hpy)
    · exact .inr (pieces_apart (by omega) hpy hpx)
  · -- of two: each lies inside its own
    have hin := (isCut_pieces hf b.addr b.length).inside x (List.mem_of_getElem? hpx)
    have hin' := (isCut_pieces hf b'.addr b'.length).inside y (List.mem_of_getElem? hpy)
    simp only at hin hin'
    rcases h hk hb hb' with hle | hle
    · exact .inl (by omega)
    · exact .inr (by omega)

/-! ## From pieces to buffers -/

/-- Buffers of one length hold the same bytes when their pieces do. -/
theorem bytesAt_of_pieces {f addr addr' n : Nat} {m m' : Nat → UInt8} (hf : 0 < f)
    (h : ∀ (i : Nat) (x y : Buffer), (pieces f addr n)[i]? = some x → (pieces f addr' n)[i]? = some y →
      bytesAt m x.addr x.length = bytesAt m' y.addr y.length) :
    bytesAt m addr n = bytesAt m' addr' n := by
  rw [bytesAt_eq_iff]
  intro k hk
  -- the byte is in the piece of its quotient, at its remainder
  have hdiv := Nat.div_add_mod' k f
  have hmod := Nat.mod_lt k hf
  have hlt : k / f < pieceCount f n := by
    have : k / f + 1 ≤ (n + f - 1) / f := by
      rw [← Nat.add_div_right _ hf]
      exact Nat.div_le_div_right (by omega)
    unfold pieceCount
    omega
  have hp := h (k / f) _ _ (getElem?_pieces.2 ⟨hlt, rfl⟩) (getElem?_pieces.2 ⟨hlt, rfl⟩)
  have hb := bytesAt_eq_iff.1 hp (k % f) (by dsimp only; omega)
  rwa [Nat.add_assoc, Nat.add_assoc, hdiv] at hb

end RapidTransfer
