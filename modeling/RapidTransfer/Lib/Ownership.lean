/-
Resources that are handed out from a free list and held in places. `Balanced` says that nothing is in two places and
nothing is lost: every resource is on the free list, once, or held in exactly one place. Taking one from the front of
the list to a place that holds none, and putting one back, keep it so (`Balanced.moves`). When there are no fewer
resources than places that may hold one, a place that holds none finds one (`Balanced.free_ne_nil`); where nothing is
put back, an empty list stays empty and nothing moves any more (`Takes.eq_of_nil`).
-/
import Mathlib.Tactic

namespace Ownership

/-- What is free, and what each place holds. -/
structure Holdings (ι ρ : Type) where
  free : List ρ
  held : ι → Option ρ

variable {ι ρ : Type}

section Moves

variable [DecidableEq ι] {A : Set ι} {l l' l'' : Holdings ι ρ}

/-- A place of `A` that holds none takes the first resource of the list. -/
inductive Take (A : Set ι) : Holdings ι ρ → Holdings ι ρ → Prop
  | mk {p : ι} {b : ρ} {free : List ρ} {held : ι → Option ρ} (hA : p ∈ A) (h : held p = none) :
      Take A ⟨b :: free, held⟩ ⟨free, Function.update held p (some b)⟩

/-- A place puts its resource back. -/
inductive Give : Holdings ι ρ → Holdings ι ρ → Prop
  | mk {p : ι} {b : ρ} {free : List ρ} {held : ι → Option ρ} (h : held p = some b) :
      Give ⟨free, held⟩ ⟨b :: free, Function.update held p none⟩

def Takes (A : Set ι) : Holdings ι ρ → Holdings ι ρ → Prop := Relation.ReflTransGen (Take A)

def Moves (A : Set ι) : Holdings ι ρ → Holdings ι ρ → Prop := Relation.ReflTransGen fun l l' => Take A l l' ∨ Give l l'

theorem Takes.refl (l : Holdings ι ρ) : Takes A l l := Relation.ReflTransGen.refl

theorem Takes.of_eq (h : l' = l) : Takes A l l' := by
  rw [h]
  exact .refl l

theorem Takes.trans (h : Takes A l l') (h' : Takes A l' l'') : Takes A l l'' := Relation.ReflTransGen.trans h h'

theorem Take.takes (h : Take A l l') : Takes A l l' := Relation.ReflTransGen.single h

theorem Takes.moves (h : Takes A l l') : Moves A l l' := by
  induction h with
  | refl => exact Relation.ReflTransGen.refl
  | tail _ ht ih => exact Relation.ReflTransGen.tail ih (.inl ht)

theorem Give.moves (h : Give l l') : Moves A l l' := Relation.ReflTransGen.single (.inr h)

theorem Moves.refl (l : Holdings ι ρ) : Moves A l l := Relation.ReflTransGen.refl

theorem Moves.of_eq (h : l' = l) : Moves A l l' := by
  rw [h]
  exact .refl l

theorem Moves.trans (h : Moves A l l') (h' : Moves A l' l'') : Moves A l l'' := Relation.ReflTransGen.trans h h'

/-- Without a free resource nothing is taken. -/
theorem Takes.eq_of_nil (h : Takes A l l') (hnil : l.free = []) : l' = l := by
  induction h with
  | refl => rfl
  | tail _ ht ih =>
    cases ht
    have := congrArg Holdings.free ih
    rw [hnil] at this
    cases this

/-- What is held stays in places that may hold. -/
theorem Takes.held_mem (h : Takes A l l') (hl : ∀ p b, l.held p = some b → p ∈ A) :
    ∀ p b, l'.held p = some b → p ∈ A := by
  induction h with
  | refl => exact hl
  | tail _ ht ih =>
    cases ht with
    | @mk q x free held hA _ =>
      intro p b hp
      by_cases hq : p = q
      · exact hq ▸ hA
      · exact ih p b ((Function.update_of_ne hq _ _).symm.trans hp)

end Moves

/-- Every resource is free, once, or in exactly one place. -/
structure Balanced (all : Finset ρ) (l : Holdings ι ρ) : Prop where
  nodup : l.free.Nodup
  known : ∀ b ∈ l.free, b ∈ all
  heldKnown : ∀ {p b}, l.held p = some b → b ∈ all
  apart : ∀ {p b}, l.held p = some b → b ∉ l.free
  once : ∀ {p q b}, l.held p = some b → l.held q = some b → p = q
  cover : ∀ b ∈ all, b ∈ l.free ∨ ∃ p, l.held p = some b

namespace Balanced

variable {all : Finset ρ} {l l' : Holdings ι ρ}

section

variable [DecidableEq ι] {p q : ι} {b x : ρ} {free : List ρ} {held : ι → Option ρ}

/-- What a place holds after one of them was changed. -/
theorem held_update {v : Option ρ} (h : Function.update held p v q = some x) :
    q = p ∧ v = some x ∨ q ≠ p ∧ held q = some x := by
  by_cases hq : q = p
  · subst hq
    rw [Function.update_self] at h
    exact .inl ⟨rfl, h⟩
  · rw [Function.update_of_ne hq] at h
    exact .inr ⟨hq, h⟩

theorem take (h : Balanced all ⟨b :: free, held⟩) (hp : held p = none) :
    Balanced all ⟨free, Function.update held p (some b)⟩ := by
  have hnodup := List.nodup_cons.1 h.nodup
  constructor
  · exact hnodup.2
  · exact fun x hx => h.known x (List.mem_cons_of_mem b hx)
  · intro q x hx
    rcases held_update hx with ⟨-, hv⟩ | ⟨-, hx⟩
    · cases hv
      exact h.known b List.mem_cons_self
    · exact h.heldKnown hx
  · intro q x hx
    rcases held_update hx with ⟨-, hv⟩ | ⟨-, hx⟩
    · cases hv
      exact hnodup.1
    · exact fun hmem => h.apart hx (List.mem_cons_of_mem b hmem)
  · intro q q' x hx hx'
    rcases held_update hx with ⟨hq, hv⟩ | ⟨-, hold⟩ <;> rcases held_update hx' with ⟨hq', hv'⟩ | ⟨-, hold'⟩
    · rw [hq, hq']
    · cases hv
      exact absurd List.mem_cons_self (h.apart hold')
    · cases hv'
      exact absurd List.mem_cons_self (h.apart hold)
    · exact h.once hold hold'
  · intro x hx
    rcases h.cover x hx with hfree | ⟨q, hq⟩
    · rcases List.mem_cons.1 hfree with rfl | hfree
      · exact .inr ⟨p, Function.update_self _ _ _⟩
      · exact .inl hfree
    · have hne : q ≠ p := by
        rintro rfl
        cases hp.symm.trans hq
      exact .inr ⟨q, (Function.update_of_ne hne _ _).trans hq⟩

theorem give (h : Balanced all ⟨free, held⟩) (hp : held p = some b) :
    Balanced all ⟨b :: free, Function.update held p none⟩ := by
  have helse : ∀ {q x}, Function.update held p none q = some x → q ≠ p ∧ held q = some x := by
    intro q x hx
    rcases held_update hx with ⟨-, hv⟩ | hx
    · cases hv
    · exact hx
  constructor
  · exact List.nodup_cons.2 ⟨h.apart hp, h.nodup⟩
  · intro x hx
    rcases List.mem_cons.1 hx with rfl | hx
    · exact h.heldKnown hp
    · exact h.known x hx
  · exact fun hx => h.heldKnown (helse hx).2
  · intro q x hx hmem
    obtain ⟨hne, hold⟩ := helse hx
    rcases List.mem_cons.1 hmem with rfl | hmem
    · exact hne (h.once hold hp)
    · exact h.apart hold hmem
  · exact fun hx hx' => h.once (helse hx).2 (helse hx').2
  · intro x hx
    rcases h.cover x hx with hfree | ⟨q, hq⟩
    · exact .inl (List.mem_cons_of_mem b hfree)
    · by_cases hqp : q = p
      · subst hqp
        obtain rfl := Option.some.inj (hq.symm.trans hp)
        exact .inl List.mem_cons_self
      · exact .inr ⟨q, (Function.update_of_ne hqp _ _).trans hq⟩

theorem moves {A : Set ι} (h : Balanced all l) (hm : Moves A l l') : Balanced all l' := by
  induction hm with
  | refl => exact h
  | tail _ hstep ih =>
    rcases hstep with ht | hg
    · obtain ⟨-, hp⟩ := ht
      exact ih.take hp
    · cases hg with
      | mk hp => exact ih.give hp

end

/-- The first resources of a list are in places, the others are free. -/
theorem of_split [DecidableEq ρ] {all : List ρ} (hnd : all.Nodup) (n : Nat) (place : Nat → ι) {held : ι → Option ρ}
    (hheld : ∀ i, held (place i) = (all.take n)[i]?) (helse : ∀ p, p ∉ Set.range place → held p = none) :
    Balanced all.toFinset ⟨all.drop n, held⟩ := by
  have hsplit := hnd
  rw [← List.take_append_drop n all, List.nodup_append] at hsplit
  have hplace : ∀ {p b}, held p = some b → ∃ i, p = place i ∧ (all.take n)[i]? = some b := by
    intro p b hp
    by_cases hr : p ∈ Set.range place
    · obtain ⟨i, rfl⟩ := hr
      exact ⟨i, rfl, (hheld i).symm.trans hp⟩
    · rw [helse p hr] at hp
      cases hp
  constructor
  · exact hsplit.2.1
  · exact fun b hb => List.mem_toFinset.2 (List.mem_of_mem_drop hb)
  · intro p b hp
    obtain ⟨i, -, hi⟩ := hplace hp
    exact List.mem_toFinset.2 (List.mem_of_mem_take (List.mem_of_getElem? hi))
  · intro p b hp hfree
    obtain ⟨i, -, hi⟩ := hplace hp
    exact hsplit.2.2 b (List.mem_of_getElem? hi) b hfree rfl
  · intro p q b hp hq
    obtain ⟨i, rfl, hi⟩ := hplace hp
    obtain ⟨j, rfl, hj⟩ := hplace hq
    obtain ⟨hlt, -⟩ := List.getElem?_eq_some_iff.1 hi
    rw [(List.getElem?_inj hlt hsplit.1).1 (hi.trans hj.symm)]
  · intro b hb
    rw [List.mem_toFinset, ← List.take_append_drop n all, List.mem_append] at hb
    rcases hb with hb | hb
    · obtain ⟨i, hi⟩ := List.mem_iff_getElem?.1 hb
      exact .inr ⟨place i, (hheld i).trans hi⟩
    · exact .inl hb

/-- A resource is on the list or in one place, not both. -/
theorem free_xor_held (h : Balanced all l) {b : ρ} (hb : b ∈ all) :
    (b ∈ l.free ∧ ∀ p, l.held p ≠ some b) ∨ b ∉ l.free ∧ ∃! p, l.held p = some b := by
  rcases h.cover b hb with hfree | ⟨p, hp⟩
  · exact .inl ⟨hfree, fun p hp => h.apart hp hfree⟩
  · exact .inr ⟨h.apart hp, p, hp, fun q hq => h.once hq hp⟩

/-- With no fewer resources than places that may hold one, a place that holds none is not left without. -/
theorem free_ne_nil [DecidableEq ι] (h : Balanced all l) {S : Finset ι} (hS : ∀ p b, l.held p = some b → p ∈ S)
    (hcard : S.card ≤ all.card) {p : ι} (hp : p ∈ S) (hnone : l.held p = none) : l.free ≠ [] := by
  intro hnil
  have hheld : ∀ b ∈ all, ∃ q, l.held q = some b := by
    intro b hb
    rcases h.cover b hb with hfree | hq
    · rw [hnil] at hfree
      cases hfree
    · exact hq
  -- the places of the resources are all different, and `p` is not among them
  have : Nonempty ι := ⟨p⟩
  choose! place hplace using hheld
  have hle : all.card ≤ (S.erase p).card := by
    refine Finset.card_le_card_of_injOn place (fun b hb => ?_) fun b hb b' hb' he => ?_
    · refine Finset.mem_coe.2 (Finset.mem_erase.2 ⟨?_, hS _ _ (hplace b hb)⟩)
      rintro he
      have := hplace b hb
      rw [he, hnone] at this
      cases this
    · have hb := hplace b hb
      rw [he, hplace b' hb'] at hb
      exact (Option.some.inj hb).symm
  have := Finset.card_erase_lt_of_mem hp
  omega

end Balanced

end Ownership
