/-
Agreement of the controller's two lookups over sequences of `registerNode` and `joinMulticast`. Every
registration draws a fresh node id, so a peer's address and its name agree exactly as long as neither
was given a newer id: by another name registering the same queue pair, or by a multicast group that
takes over the name.
-/
import RapidTransfer.Controller.Basic

namespace RapidTransfer.Controller

/-- A call on the controller; the flag of `join` is whether the group could be set up. -/
inductive Call
  | register (peerAddr : String) (gid : BitVec 128) (qpNumList : List Nat)
  | join (multicastAddr : String) (constructed : Bool)
  deriving DecidableEq

def call (c : Controller) : Call → Controller
  | .register p g Q => c.registerNode p g Q
  | .join a ok => (c.joinMulticast a ok).2

def calls (c : Controller) (es : List Call) : Controller := es.foldl call c

/-- The call gives the queue pair's address a new id. -/
def Call.lists (g : BitVec 128) (q : Nat) : Call → Prop
  | .register _ g' Q => g' = g ∧ q ∈ Q
  | .join _ _ => False

@[simp] theorem calls_append (c : Controller) (es fs : List Call) : c.calls (es ++ fs) = (c.calls es).calls fs := by
  simp [calls]

theorem calls_bond (c : Controller) : ∀ es : List Call, (c.calls es).bond = c.bond := by
  intro es
  induction es generalizing c with
  | nil => rfl
  | cons e es ih =>
    show ((c.call e).calls es).bond = _
    rw [ih]
    cases e with
    | register p g Q => rfl
    | join a ok =>
      obtain ⟨-, he⟩ | ⟨-, -, he⟩ | ⟨-, -, he⟩ := c.joinMulticast_cases a ok <;> simp [call, he]

/-- An address is a group exactly after a call could set it up. -/
theorem mem_multicastContextMap_calls (c : Controller) (a : String) : ∀ es : List Call,
    a ∈ (c.calls es).multicastContextMap ↔ a ∈ c.multicastContextMap ∨ Call.join a true ∈ es := by
  intro es
  induction es generalizing c with
  | nil => simp [calls]
  | cons e es ih =>
    show a ∈ ((c.call e).calls es).multicastContextMap ↔ _
    rw [ih]
    cases e with
    | register p g Q => simp [call, registerNode]
    | join b ok =>
      obtain ⟨hb, he⟩ | ⟨hb, rfl, he⟩ | ⟨hb, rfl, he⟩ := c.joinMulticast_cases b ok
      · simp only [call, he, List.mem_cons, Call.join.injEq]
        constructor
        · rintro (h | h)
          · exact .inl h
          · exact .inr (.inr h)
        · rintro (h | ⟨rfl, -⟩ | h)
          · exact .inl h
          · exact .inl hb
          · exact .inr h
      · simp [call, he]
      · simp only [call, he, bind_multicastContextMap, AList.mem_insert, List.mem_cons, Call.join.injEq, and_true]
        rw [or_assoc, or_left_comm]

/-! ## Ids after a registration -/

/-- Where the two lookups of a peer stand after later calls `fs`, if it got the id `n0` from its
registration: each still has `n0` unless a call of `fs` replaced it, and replaced ids are fresh. -/
structure Tracks (c : Controller) (p : String) (a : NodeAddress) (n0 : Nat) (listed joined : Prop)
    (n m : Nat) : Prop where
  addr : c.nodeIdMap.lookup a = some n
  name : c.peerNameMap p = some m
  addrLt : n < c.nextNodeId
  nameLt : m < c.nextNodeId
  old : n0 < c.nextNodeId
  addrOld : n = n0 ↔ ¬ listed
  nameOld : m = n0 ↔ ¬ joined
  fresh : n = m → n = n0

theorem Tracks.call {c : Controller} {p : String} {a : NodeAddress} {n0 n m : Nat} {listed joined : Prop}
    (h : Tracks c p a n0 listed joined n m) {e : Call} (hp : ∀ g Q, e ≠ .register p g Q) :
    ∃ n' m', Tracks (c.call e) p a n0 (listed ∨ e.lists a.gid a.qpNum)
      (joined ∨ (e = .join p true ∧ p ∉ c.multicastContextMap)) n' m' := by
  obtain ⟨ha, hn, hal, hnl, ho, hao, hno, hf⟩ := h
  cases e with
  | register p' g Q =>
    have hpp : p ≠ p' := fun he => hp g Q (by rw [he])
    by_cases hl : a.gid = g ∧ a.qpNum ∈ Q
    · refine ⟨c.nextNodeId, m, ?_, ?_, ?_, ?_, ?_, ?_, ?_, ?_⟩
      · simp [Controller.call, registerNode, lookup_assign, hl]
      · simp [Controller.call, registerNode, hpp, hn]
      · exact Nat.lt_succ_self _
      · exact Nat.lt_succ_of_lt hnl
      · exact Nat.lt_succ_of_lt ho
      · simp [Call.lists, hl, ho.ne']
      · simp [hno]
      · intro he; exact absurd he hnl.ne'
    · refine ⟨n, m, ?_, ?_, Nat.lt_succ_of_lt hal, Nat.lt_succ_of_lt hnl, Nat.lt_succ_of_lt ho, ?_, by simp [hno], hf⟩
      · simp [Controller.call, registerNode, lookup_assign, hl, ha]
      · simp [Controller.call, registerNode, hpp, hn]
      · rw [hao]; simp only [Call.lists, eq_comm (a := g), hl, or_false]
  | join b ok =>
    obtain ⟨hb, he⟩ | ⟨hb, rfl, he⟩ | ⟨hb, rfl, he⟩ := c.joinMulticast_cases b ok
    · rw [show c.call (.join b ok) = c from congrArg Prod.snd he]
      refine ⟨n, m, ha, hn, hal, hnl, ho, by simp [Call.lists, hao], ?_, hf⟩
      have : ¬ (Call.join b ok = .join p true ∧ p ∉ c.multicastContextMap) := by
        rintro ⟨h1, h2⟩; cases h1; exact h2 hb
      simp only [hno, this, or_false]
    · rw [show c.call (.join b false) = { c with nextNodeId := c.nextNodeId + 1 } from congrArg Prod.snd he]
      exact ⟨n, m, ha, hn, Nat.lt_succ_of_lt hal, Nat.lt_succ_of_lt hnl, Nat.lt_succ_of_lt ho,
        by simp [Call.lists, hao], by simp [hno], hf⟩
    · rw [show c.call (.join b true) = _ from congrArg Prod.snd he]
      by_cases hbp : p = b
      · subst hbp
        exact ⟨n, c.nextNodeId, ha, by simp, Nat.lt_succ_of_lt hal, Nat.lt_succ_self _, Nat.lt_succ_of_lt ho,
          by simp [Call.lists, hao], by simp [hb, ho.ne'], fun h => absurd h hal.ne⟩
      · exact ⟨n, m, ha, by simp [hbp, hn], Nat.lt_succ_of_lt hal, Nat.lt_succ_of_lt hnl, Nat.lt_succ_of_lt ho,
          by simp [Call.lists, hao], by simp [hno, Ne.symm hbp], hf⟩

/-- The same over all later calls, none of which registers the peer again. -/
theorem Tracks.calls {p : String} {a : NodeAddress} {n0 : Nat} : ∀ (fs : List Call) {c : Controller} {n m : Nat}
    {listed joined : Prop}, Tracks c p a n0 listed joined n m → (∀ g Q, Call.register p g Q ∉ fs) →
    ∃ n' m', Tracks (c.calls fs) p a n0 (listed ∨ ∃ e ∈ fs, e.lists a.gid a.qpNum)
      (joined ∨ (p ∉ c.multicastContextMap ∧ Call.join p true ∈ fs)) n' m'
  | [], c, n, m, listed, joined, h, _ => ⟨n, m, by simpa [Controller.calls] using h⟩
  | e :: fs, c, n, m, listed, joined, h, hp => by
    obtain ⟨n1, m1, h1⟩ := h.call (e := e) fun g Q he => hp g Q (by simp [he])
    obtain ⟨n2, m2, h2⟩ := calls fs h1 fun g Q hm => hp g Q (by simp [hm])
    refine ⟨n2, m2, h2.addr, h2.name, h2.addrLt, h2.nameLt, h2.old, ?_, ?_, h2.fresh⟩
    · rw [h2.addrOld]; simp [or_assoc]
    · have hstep := mem_multicastContextMap_calls c p [e]
      rw [show c.calls [e] = c.call e from rfl, List.mem_singleton] at hstep
      rw [h2.nameOld, hstep, List.mem_cons]
      refine not_congr ⟨?_, ?_⟩
      · rintro ((hj | ⟨he, hfresh⟩) | ⟨hno, hin⟩)
        · exact .inl hj
        · exact .inr ⟨hfresh, .inl he.symm⟩
        · exact .inr ⟨fun hm => hno (.inl hm), .inr hin⟩
      · rintro (hj | ⟨hfresh, hjoin⟩)
        · exact .inl (.inl hj)
        · -- the first of the joins counts
          by_cases he : Call.join p true = e
          · exact .inl (.inr ⟨he.symm, hfresh⟩)
          · exact .inr ⟨not_or.2 ⟨hfresh, he⟩, hjoin.resolve_left he⟩

/-! ## Agreement -/

/-- A packet from a registered queue pair goes to the session its peer's name stands for exactly as
long as no later call lists that queue pair under another name and none makes the name a group. -/
theorem findSession_agrees_iff (es fs : List Call) (p : String) (g : BitVec 128) (Q : List Nat)
    (hlast : ∀ g' Q', Call.register p g' Q' ∉ fs) (q : Nat) (hq : q ∈ Q) :
    (∀ s < 256, ((construct false).calls (es ++ .register p g Q :: fs)).findSessionOfAddress g q s =
        some (((construct false).calls (es ++ .register p g Q :: fs)).findSession p s)) ↔
      (∀ p' Q', Call.register p' g Q' ∈ fs → q ∉ Q') ∧ (Call.join p true ∈ fs → Call.join p true ∈ es) := by
  set c0 := (construct false).calls es with hc0
  set c1 := c0.call (.register p g Q) with hc1
  have hcs : (construct false).calls (es ++ .register p g Q :: fs) = c1.calls fs := by
    rw [calls_append]; rfl
  have hstart : Tracks c1 p ⟨g, q⟩ c0.nextNodeId False False c0.nextNodeId c0.nextNodeId := by
    refine ⟨?_, ?_, Nat.lt_succ_self _, Nat.lt_succ_self _, Nat.lt_succ_self _, by simp, by simp, fun h => h⟩
    · simp [hc1, call, registerNode, lookup_assign, hq]
    · simp [hc1, call, registerNode]
  obtain ⟨n, m, h⟩ := hstart.calls fs hlast
  have hbond : (c1.calls fs).bond = false := by rw [← hcs, calls_bond]; rfl
  have hgroup : p ∉ c1.multicastContextMap ↔ Call.join p true ∉ es := by
    show p ∉ c0.multicastContextMap ↔ _
    rw [hc0, mem_multicastContextMap_calls]; simp [construct]
  -- both lookups give `id * 256 + s`, so they agree on a session exactly when the ids do
  have hagree : (∀ s < 256, (c1.calls fs).findSessionOfAddress g q s = some ((c1.calls fs).findSession p s)) ↔
      n = m := by
    simp only [findSessionOfAddress, hbond, findSession, h.addr, h.name, Option.map_some, Bool.false_eq_true, if_false,
      Option.some.injEq]
    exact ⟨fun hs => by have := hs 0 (by omega); omega, fun he s _ => by rw [he]⟩
  rw [hcs, hagree]
  have hnm : n = m ↔ n = c0.nextNodeId ∧ m = c0.nextNodeId :=
    ⟨fun he => ⟨h.fresh he, he ▸ h.fresh he⟩, fun he => he.1.trans he.2.symm⟩
  rw [hnm, h.addrOld, h.nameOld, hgroup]
  constructor
  · rintro ⟨h1, h2⟩
    refine ⟨fun p' Q' hm hq' => h1 (.inr ⟨_, hm, rfl, hq'⟩), fun hj => ?_⟩
    by_contra hes
    exact h2 (.inr ⟨hes, hj⟩)
  · rintro ⟨h1, h2⟩
    constructor
    · rintro (hf | ⟨e, he, hl⟩)
      · exact hf
      · cases e with
        | register p' g' Q' => obtain ⟨rfl, hq'⟩ := hl; exact h1 p' Q' he hq'
        | join a ok => exact hl
    · rintro (hf | ⟨hes, hj⟩)
      · exact hf
      · exact hes (h2 hj)

/-- One peer connected by its address and then accepted by the listener under another name. -/
def bothDirections : Controller :=
  (construct false).calls [.register "10.0.0.2:12345" 7 [1], .register "server/0" 7 [1]]

/-- The second name took the queue pair away from the first. -/
theorem bothDirections_disagrees :
    bothDirections.findSessionOfAddress 7 1 0 = some (some 256) ∧
      bothDirections.findSession "10.0.0.2:12345" 0 = some 0 := by
  decide

theorem findSession_agrees_reconnect :
    ((construct false).calls ([.register "a" 7 [1], .join "224.0.0.1" true] ++
        .register "a" 7 [1, 2] :: [.register "b" 8 [1]])).findSessionOfAddress 7 1 3 =
      some (((construct false).calls ([.register "a" 7 [1], .join "224.0.0.1" true] ++
        .register "a" 7 [1, 2] :: [.register "b" 8 [1]])).findSession "a" 3) :=
  (findSession_agrees_iff [.register "a" 7 [1], .join "224.0.0.1" true] [.register "b" 8 [1]] "a" 7 [1, 2]
    (by simp) 1 (by decide)).2 ⟨by simp, by simp⟩ 3 (by decide)

end RapidTransfer.Controller
