/-
The table of memory regions over any sequence of registrations and removals by one thread. The three tests of
`registerMemoryRegion` together find exactly the ranges that meet a region that is there, because every range has
an address: a region of length zero inside another would pass none of them. So the regions of a table stay
disjoint, an address has one region at most, and neither the order of the table nor the loop of
`unregisterMemoryRegion`, which starts again after each removal, matters.
-/
import RapidTransfer.Lib.Runs
import RapidTransfer.Memory.Region

namespace RapidTransfer

namespace MemoryRegion

/-! ## Removal -/

/-- The loop of `RdmaContext::unregisterMemoryRegion`: the return code and the table. `dereg` says for which regions
`ibv_dereg_mr` succeeds; `none` if the turns run out. -/
def unregisterLoop (dereg : MemoryRegion → Bool) (addr : Nat) : Nat → List MemoryRegion →
    Option (Int × List MemoryRegion)
  | 0, _ => none
  | turns + 1, regions =>
    match regions.find? (·.contains addr) with
    | none => some (0, regions)
    | some entry =>
      if dereg entry then unregisterLoop dereg addr turns (regions.eraseP (·.contains addr)) else some (-1, regions)

/-- `RdmaContext::unregisterMemoryRegion`, with a turn for each region and one that finds none. -/
def unregister (dereg : MemoryRegion → Bool) (regions : List MemoryRegion) (addr : Nat) :
    Option (Int × List MemoryRegion) :=
  unregisterLoop dereg addr (regions.length + 1) regions

/-- The loop ends whatever the verb answers: the turns are enough, and more of them change nothing. -/
theorem unregisterLoop_some (dereg : MemoryRegion → Bool) (addr : Nat) {turns : Nat} {regions : List MemoryRegion}
    (h : regions.length < turns) :
    ∃ r, unregisterLoop dereg addr turns regions = some r ∧
      ∀ more, unregisterLoop dereg addr (turns + more) regions = some r := by
  induction turns generalizing regions with
  | zero => exact absurd h (Nat.not_lt_zero _)
  | succ turns ih =>
    have hsucc : ∀ more, turns + 1 + more = turns + more + 1 := fun more => by omega
    cases hfind : regions.find? (·.contains addr) with
    | none => exact ⟨(0, regions), by simp only [unregisterLoop, hfind], fun more => by
        simp only [hsucc, unregisterLoop, hfind]⟩
    | some entry =>
      cases hd : dereg entry with
      | false => exact ⟨(-1, regions), by simp [unregisterLoop, hfind, hd], fun more => by
          simp [hsucc, unregisterLoop, hfind, hd]⟩
      | true =>
        -- the turn takes a region out, so the shorter list has turns enough
        have hmem := List.mem_of_find?_eq_some hfind
        have hlen := List.length_eraseP_of_mem hmem (List.find?_some hfind)
        have hpos := List.length_pos_of_mem hmem
        have hless : (regions.eraseP (·.contains addr)).length < turns := by omega
        obtain ⟨r, hr, hmore⟩ := ih hless
        exact ⟨r, by simp [unregisterLoop, hfind, hd, hr], fun more => by
          simp [hsucc, unregisterLoop, hfind, hd, hmore]⟩

/-- When the verb succeeds, no region with the address is left and the others are. -/
theorem unregisterLoop_eq_filter (addr : Nat) {turns : Nat} {regions : List MemoryRegion}
    (h : regions.length < turns) :
    unregisterLoop (fun _ => true) addr turns regions = some (0, regions.filter (!·.contains addr)) := by
  induction turns generalizing regions with
  | zero => exact absurd h (Nat.not_lt_zero _)
  | succ turns ih =>
    cases hfind : regions.find? (·.contains addr) with
    | none =>
      have hall : ∀ entry ∈ regions, (!entry.contains addr) = true := by
        intro entry he
        simpa using List.find?_eq_none.1 hfind entry he
      rw [unregisterLoop, hfind, List.filter_eq_self.2 hall]
    | some entry =>
      obtain ⟨hx, as, bs, hsplit, has⟩ := List.find?_eq_some_iff_append.1 hfind
      have herase : regions.eraseP (·.contains addr) = as ++ bs := by
        have hhead : (entry :: bs).eraseP (·.contains addr) = bs := List.eraseP_cons_of_pos hx
        rw [hsplit, List.eraseP_append_right _ fun b hb => by simpa using has b hb, hhead]
      have hlen : (as ++ bs).length < turns := by
        rw [hsplit] at h
        simp only [List.length_append, List.length_cons] at h ⊢
        omega
      simp only [unregisterLoop, hfind, if_true, herase]
      rw [ih hlen, hsplit]
      simp [List.filter_append, hx]

theorem unregister_eq_filter (regions : List MemoryRegion) (addr : Nat) :
    unregister (fun _ => true) regions addr = some (0, regions.filter (!·.contains addr)) :=
  unregisterLoop_eq_filter addr (Nat.lt_succ_self _)

/-! ## Disjoint regions -/

/-- Some address of the range is in the region. -/
def Meets (entry : MemoryRegion) (addr length : Nat) : Prop :=
  ∃ x, entry.contains x = true ∧ addr ≤ x ∧ x < addr + length

/-- For ranges that have an address the three tests are intersection. -/
theorem overlaps_iff_meets {entry : MemoryRegion} {addr length : Nat} (he : 1 ≤ entry.length) (hl : 1 ≤ length) :
    entry.overlaps addr length = true ↔ entry.Meets addr length := by
  constructor
  · intro h
    simp only [overlaps, Bool.or_eq_true, decide_eq_true_eq] at h
    -- the larger of the two starts is in both
    refine ⟨max entry.addr addr, decide_eq_true ⟨?_, ?_⟩, ?_, ?_⟩ <;> omega
  · rintro ⟨x, hx, hlo, hhi⟩
    cases h : entry.overlaps addr length with
    | true => rfl
    | false => rw [not_contains_of_not_overlaps h hlo hhi] at hx; cases hx

/-- No address is in both. -/
def Apart (a b : MemoryRegion) : Prop := ∀ x, ¬(a.contains x = true ∧ b.contains x = true)

theorem Apart.symm {a b : MemoryRegion} (h : a.Apart b) : b.Apart a :=
  fun x hx => h x hx.symm

instance : Std.Symm Apart := ⟨fun _ _ h => h.symm⟩

theorem apart_of_not_overlaps {entry : MemoryRegion} {k : Keys} {addr length : Nat}
    (h : entry.overlaps addr length = false) : entry.Apart ⟨k, addr, length⟩ := by
  rintro x ⟨hx, hin⟩
  obtain ⟨hlo, hhi⟩ := of_decide_eq_true hin
  rw [not_contains_of_not_overlaps h hlo hhi] at hx
  cases hx

/-- The regions of a table: each has an address, and no two have one in common. -/
structure Table (regions : List MemoryRegion) : Prop where
  nonempty : ∀ entry ∈ regions, 1 ≤ entry.length
  apart : regions.Pairwise Apart

theorem Table.nil : Table [] := ⟨fun _ h => (List.not_mem_nil h).elim, List.Pairwise.nil⟩

theorem Table.append {regions : List MemoryRegion} (h : Table regions) {k : Keys} {addr length : Nat}
    (hl : 1 ≤ length) (hnew : ∀ entry ∈ regions, entry.Apart ⟨k, addr, length⟩) :
    Table (regions ++ [⟨k, addr, length⟩]) := by
  constructor
  · intro entry he
    rcases List.mem_append.1 he with he | he
    · exact h.nonempty entry he
    · rw [List.mem_singleton.1 he]
      exact hl
  · rw [List.pairwise_append]
    refine ⟨h.apart, List.pairwise_singleton _ _, ?_⟩
    rintro a ha b hb
    rw [List.mem_singleton.1 hb]
    exact hnew a ha

theorem Table.register {regions regions' : List MemoryRegion} {addr length : Nat} {mr : Option Keys}
    (h : Table regions) (hl : 1 ≤ length) (hr : register regions addr length mr = some regions') : Table regions' := by
  obtain ⟨hno, k, -, rfl⟩ := register_some hr
  exact h.append hl fun entry he => apart_of_not_overlaps (hno entry he)

theorem Table.sublist {regions regions' : List MemoryRegion} (h : Table regions) (hs : regions'.Sublist regions) :
    Table regions' :=
  ⟨fun entry he => h.nonempty entry (hs.subset he), h.apart.sublist hs⟩

/-- No region stands in the table twice. -/
theorem Table.nodup {regions : List MemoryRegion} (h : Table regions) : regions.Nodup := by
  refine h.apart.imp_of_mem ?_
  rintro a b ha hb hab rfl
  have hpos := h.nonempty a ha
  exact hab a.addr ⟨decide_eq_true ⟨le_refl _, by omega⟩, decide_eq_true ⟨le_refl _, by omega⟩⟩

/-- An address is in one region at most. -/
theorem Table.unique {regions : List MemoryRegion} (h : Table regions) {a b : MemoryRegion} (ha : a ∈ regions)
    (hb : b ∈ regions) {x : Nat} (hax : a.contains x = true) (hbx : b.contains x = true) : a = b := by
  by_contra hne
  exact h.apart.forall ha hb hne x ⟨hax, hbx⟩

/-! ## Keys -/

/-- The keys of an address are those of its region. -/
theorem Table.key_of_mem {regions : List MemoryRegion} (h : Table regions) {entry : MemoryRegion}
    (he : entry ∈ regions) {x : Nat} (hx : entry.contains x = true) : key regions x = (entry.lkey, entry.rkey) := by
  obtain ⟨first, hfirst⟩ : ∃ first, regions.find? (·.contains x) = some first :=
    Option.isSome_iff_exists.1 (List.find?_isSome.2 ⟨entry, he, hx⟩)
  have hin := List.find?_some hfirst
  have hsame := h.unique (List.mem_of_find?_eq_some hfirst) he hin hx
  simp only [key, hfirst, hsame]

/-- Keys are never zero, so a zero pair is an address without a region. -/
theorem key_eq_zero_iff {regions : List MemoryRegion} {x : Nat} : key regions x = (0, 0) ↔ ¬Covers regions x := by
  constructor
  · rintro hkey hcov
    obtain ⟨first, hfirst⟩ : ∃ first, regions.find? (·.contains x) = some first :=
      Option.isSome_iff_exists.1 (List.find?_isSome.2 hcov)
    simp only [key, hfirst, Prod.mk.injEq] at hkey
    exact first.lkey_ne hkey.1
  · exact key_of_not_covers

/-- Two tables have the same keys at an address that is in the same region of both, or in none. -/
theorem key_congr {regions regions' : List MemoryRegion} (h : Table regions) (h' : Table regions') {x : Nat}
    (hmem : ∀ entry, entry.contains x = true → (entry ∈ regions ↔ entry ∈ regions')) :
    key regions' x = key regions x := by
  by_cases hcov : Covers regions x
  · obtain ⟨entry, he, hx⟩ := hcov
    rw [h.key_of_mem he hx, h'.key_of_mem ((hmem entry hx).1 he) hx]
  · have hcov' : ¬Covers regions' x := by
      rintro ⟨entry, he, hx⟩
      exact hcov ⟨entry, (hmem entry hx).2 he, hx⟩
    rw [key_of_not_covers hcov, key_of_not_covers hcov']

/-- Where a region does not have the removed address, its addresses keep their keys. -/
theorem Table.key_filter {regions : List MemoryRegion} (h : Table regions) {a x : Nat}
    (hx : ∀ entry ∈ regions, entry.contains a = true → entry.contains x = false) :
    key (regions.filter (!·.contains a)) x = key regions x := by
  refine key_congr h (h.sublist List.filter_sublist) fun entry hin => ?_
  rw [List.mem_filter]
  constructor
  · intro he
    refine ⟨he, ?_⟩
    cases ha : entry.contains a with
    | false => rfl
    | true => rw [hx entry he ha] at hin; cases hin
  · rintro ⟨he, -⟩
    exact he

/-- The order of the regions does not matter. -/
theorem Table.key_perm {regions regions' : List MemoryRegion} (h : Table regions) (hperm : regions'.Perm regions)
    (x : Nat) : key regions' x = key regions x := by
  have h' : Table regions' := by
    constructor
    · intro entry he
      exact h.nonempty entry (hperm.mem_iff.1 he)
    · exact (hperm.pairwise_iff Apart.symm).2 h.apart
  exact key_congr h h' fun entry _ => hperm.mem_iff.symm

/-- Nothing goes where no region has the address. -/
theorem filter_of_not_covers {regions : List MemoryRegion} {a : Nat} (h : ¬Covers regions a) :
    regions.filter (!·.contains a) = regions := by
  refine List.filter_eq_self.2 fun entry he => ?_
  cases hx : entry.contains a with
  | false => rfl
  | true => exact absurd ⟨entry, he, hx⟩ h

/-- One region goes. -/
theorem Table.perm_filter {regions : List MemoryRegion} (h : Table regions) {a : MemoryRegion} (ha : a ∈ regions)
    {x : Nat} (hx : a.contains x = true) :
    regions.Perm (a :: regions.filter (!·.contains x)) := by
  have honly : regions.filter (·.contains x) = [a] := by
    have hnodup : (regions.filter (·.contains x)).Nodup := h.nodup.filter _
    refine List.perm_singleton.1 ((List.perm_ext_iff_of_nodup hnodup (List.nodup_singleton a)).2 fun b => ?_)
    rw [List.mem_filter, List.mem_singleton]
    constructor
    · rintro ⟨hb, hbx⟩
      exact h.unique hb ha hbx hx
    · rintro rfl
      exact ⟨ha, hx⟩
  have hperm := List.filter_append_perm (·.contains x) regions
  rw [honly] at hperm
  exact hperm.symm

/-! ## Runs -/

/-- The calls that change a table; `key` only reads it. -/
inductive TableOp
  | registerMemoryRegion (addr length : Nat) (k : Keys)
  | unregisterMemoryRegion (addr : Nat)

/-- A call with the verbs succeeding: a refused registration leaves the table as it is. -/
def apply (regions : List MemoryRegion) : TableOp → Option (List MemoryRegion)
  | .registerMemoryRegion addr length k => some ((register regions addr length (some k)).getD regions)
  | .unregisterMemoryRegion addr => (unregister (fun _ => true) regions addr).map Prod.snd

/-- Ranges have an address. -/
def Proper (_ : List MemoryRegion) : TableOp → Prop
  | .registerMemoryRegion _ length _ => 1 ≤ length
  | .unregisterMemoryRegion _ => True

instance (regions : List MemoryRegion) : ∀ op, Decidable (Proper regions op)
  | .registerMemoryRegion _ length _ => inferInstanceAs (Decidable (1 ≤ length))
  | .unregisterMemoryRegion _ => .isTrue trivial

theorem Table.apply {regions regions' : List MemoryRegion} {op : TableOp} (h : Table regions)
    (hop : Proper regions op) (hs : apply regions op = some regions') : Table regions' := by
  cases op with
  | registerMemoryRegion addr length k =>
    simp only [MemoryRegion.apply, Option.some.injEq] at hs
    cases hr : MemoryRegion.register regions addr length (some k) with
    | none => rw [hr] at hs; exact hs ▸ h
    | some added => rw [hr] at hs; exact hs ▸ h.register hop hr
  | unregisterMemoryRegion addr =>
    simp only [MemoryRegion.apply, unregister_eq_filter, Option.map_some, Option.some.injEq] at hs
    exact hs ▸ h.sublist List.filter_sublist

theorem table_run {ops : List TableOp} {regions : List MemoryRegion} (h : Runs.Run apply Proper [] ops regions) :
    Table regions :=
  h.invariant (P := Table) Table.nil fun _ _ _ ht hop hs => ht.apply hop hs

theorem register_isSome_iff {regions : List MemoryRegion} (h : Table regions) {addr length : Nat} (hl : 1 ≤ length)
    (k : Keys) :
    (register regions addr length (some k)).isSome = true ↔ ∀ entry ∈ regions, ¬entry.Meets addr length := by
  have hmeets : ∀ entry ∈ regions, entry.overlaps addr length = true ↔ entry.Meets addr length :=
    fun entry he => overlaps_iff_meets (h.nonempty entry he) hl
  unfold register
  split
  · rename_i hany
    obtain ⟨entry, he, hover⟩ := List.any_eq_true.1 hany
    exact iff_of_false Bool.false_ne_true fun hno => hno entry he ((hmeets entry he).1 hover)
  · rename_i hany
    refine iff_of_true rfl fun entry he hm => hany ?_
    exact List.any_eq_true.2 ⟨entry, he, (hmeets entry he).2 hm⟩

/-- In every table that calls lead to: a registration is accepted iff its range meets no region, and the regions are
disjoint; the keys of an address are those of the one region with it, in whatever order the table is, and zero iff
there is none; a removal ends, takes out the region with the address and nothing else, and no other address's keys
change. -/
theorem table_correct {ops : List TableOp} {regions : List MemoryRegion}
    (h : Runs.Run apply Proper [] ops regions) :
    (∀ addr length k, 1 ≤ length →
      ((register regions addr length (some k)).isSome = true ↔ ∀ entry ∈ regions, ¬entry.Meets addr length)) ∧
    regions.Pairwise Apart ∧
    (∀ entry ∈ regions, ∀ a, entry.contains a = true →
      key regions a = (entry.lkey, entry.rkey) ∧ ∀ other ∈ regions, other.contains a = true → other = entry) ∧
    (∀ a regions', regions'.Perm regions → key regions' a = key regions a) ∧
    (∀ a, key regions a = (0, 0) ↔ ¬Covers regions a) ∧
    ∀ a, ∃ regions', (∀ more,
      unregisterLoop (fun _ => true) a (regions.length + 1 + more) regions = some (0, regions')) ∧
      regions'.Sublist regions ∧
      (¬Covers regions a → regions' = regions) ∧
      (∀ entry ∈ regions, entry.contains a = true → regions.Perm (entry :: regions')) ∧
      (∀ entry ∈ regions', entry.contains a = false) ∧
      ∀ x, (∀ entry ∈ regions, entry.contains a = true → entry.contains x = false) →
      key regions' x = key regions x := by
  have ht := table_run h
  refine ⟨fun addr length k hl => register_isSome_iff ht hl k, ht.apart, ?_,
    fun a regions' hperm => ht.key_perm hperm a, fun a => key_eq_zero_iff, ?_⟩
  · intro entry he a ha
    exact ⟨ht.key_of_mem he ha, fun other ho hoa => ht.unique ho he hoa ha⟩
  · intro a
    refine ⟨regions.filter (!·.contains a), fun more => unregisterLoop_eq_filter a (by omega), List.filter_sublist,
      filter_of_not_covers, fun entry he hx => ht.perm_filter he hx, ?_, fun x hx => ht.key_filter hx⟩
    intro entry he
    simpa using (List.mem_filter.1 he).2

/-- The second range is refused, the first region is taken out again. -/
theorem table_of_three_ranges : ∃ regions,
    Runs.Run apply Proper [] [.registerMemoryRegion 100 8 .sample, .registerMemoryRegion 104 8 .sample,
      .registerMemoryRegion 108 8 .sample, .unregisterMemoryRegion 101] regions ∧
      regions.map (·.addr) = [108] ∧ (key regions 103 = (0, 0) ↔ ¬Covers regions 103) := by
  obtain ⟨regions, hrun, htest⟩ := Runs.exists_run_of_exec apply Proper []
    [.registerMemoryRegion 100 8 .sample, .registerMemoryRegion 104 8 .sample,
      .registerMemoryRegion 108 8 .sample, .unregisterMemoryRegion 101]
    (fun regions => decide (regions.map (·.addr) = [108])) (by decide)
  exact ⟨regions, hrun, of_decide_eq_true htest, (table_correct hrun).2.2.2.2.1 103⟩

end MemoryRegion

end RapidTransfer
