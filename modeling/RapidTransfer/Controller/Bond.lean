/-
The lookup on a bonded device. There `findSession` ignores the gid of the sender and scans `node_id_map_` for its queue
pair number. Queue pair numbers are drawn by each host for itself, so two hosts may register the same one: the scan
finds what the exact lookup finds as long as nobody else has registered the number (`bond_agrees_iff`), and fails its
assertion as soon as somebody has (`two_hosts_one_number`).
-/
import RapidTransfer.Controller.Routing

namespace RapidTransfer.Controller

/-! ## One sequence of calls on two devices -/

theorem call_withBond (c : Controller) (b : Bool) (e : Call) :
    call { c with bond := b } e = { c.call e with bond := b } := by
  cases e with
  | register p g Q => rfl
  | join a created =>
    unfold call joinMulticast
    simp only
    split
    · rfl
    · split
      · rfl
      · rfl

theorem calls_withBond (c : Controller) (b : Bool) (es : List Call) :
    calls { c with bond := b } es = { c.calls es with bond := b } := by
  induction es generalizing c with
  | nil => rfl
  | cons e es ih =>
    show calls (call { c with bond := b } e) es = { (c.call e).calls es with bond := b }
    rw [call_withBond, ih]

/-! ## Registered addresses -/

theorem mem_nodeIdMap_call (c : Controller) (e : Call) (a : NodeAddress) :
    a ∈ (c.call e).nodeIdMap ↔ a ∈ c.nodeIdMap ∨ e.lists a.gid a.qpNum := by
  cases e with
  | register p g Q =>
    simp only [← AList.lookup_isSome, call, registerNode, bind_nodeIdMap, lookup_assign, Call.lists]
    split
    · rename_i h
      simp [h.1, h.2]
    · rename_i h
      rw [or_iff_left fun hl => h ⟨hl.1.symm, hl.2⟩]
  | join b created =>
    obtain ⟨-, he⟩ | ⟨-, -, he⟩ | ⟨-, -, he⟩ := c.joinMulticast_cases b created
    all_goals simp [call, he, Call.lists]

/-- An address is in the map exactly after a call that lists it. -/
theorem mem_nodeIdMap_calls (c : Controller) (es : List Call) (a : NodeAddress) :
    a ∈ (c.calls es).nodeIdMap ↔ a ∈ c.nodeIdMap ∨ ∃ e ∈ es, e.lists a.gid a.qpNum := by
  induction es generalizing c with
  | nil => simp [calls]
  | cons e es ih =>
    show a ∈ ((c.call e).calls es).nodeIdMap ↔ _
    rw [ih, mem_nodeIdMap_call, or_assoc, List.exists_mem_cons_iff]

/-! ## The scan -/

/-- The entries with a queue pair number, when all of them are under one gid. -/
theorem scan_eq (m : AList fun _ : NodeAddress => Nat) {gid : BitVec 128} {qpNum id : Nat}
    (hid : m.lookup ⟨gid, qpNum⟩ = some id) (honly : ∀ a ∈ m, a.qpNum = qpNum → a.gid = gid) :
    m.entries.filter (fun e => e.1.qpNum = qpNum) = [⟨⟨gid, qpNum⟩, id⟩] := by
  have hkey : ∀ e ∈ m.entries.filter (fun e => e.1.qpNum = qpNum), e = ⟨⟨gid, qpNum⟩, id⟩ := by
    rintro ⟨⟨g, q⟩, n⟩ he
    obtain ⟨hmem, hq⟩ := List.mem_filter.1 he
    obtain rfl : q = qpNum := of_decide_eq_true hq
    have hlook := AList.mem_lookup_iff.2 hmem
    obtain rfl : g = gid := honly ⟨g, q⟩ (AList.lookup_isSome.1 (by rw [hlook]; rfl)) rfl
    rw [hlook] at hid
    cases hid
    rfl
  have hin : (⟨⟨gid, qpNum⟩, id⟩ : Sigma fun _ : NodeAddress => Nat) ∈ m.entries.filter (fun e => e.1.qpNum = qpNum) :=
    List.mem_filter.2 ⟨AList.mem_lookup_iff.1 hid, decide_eq_true rfl⟩
  have hnodup := (m.nodupKeys.nodup).filter fun e => decide (e.1.qpNum = qpNum)
  refine List.perm_singleton.1 ((List.perm_ext_iff_of_nodup hnodup (List.nodup_singleton _)).2 fun e => ?_)
  rw [List.mem_singleton]
  exact ⟨hkey e, fun he => he ▸ hin⟩

/-- The scan fails its assertion where two gids have the number. -/
theorem scan_eq_none (c : Controller) (hbond : c.bond = true) {g g' : BitVec 128} {qpNum : Nat} (session : Nat)
    (gid : BitVec 128) (h : ⟨g, qpNum⟩ ∈ c.nodeIdMap) (h' : ⟨g', qpNum⟩ ∈ c.nodeIdMap) (hne : g ≠ g') :
    c.findSessionOfAddress gid qpNum session = none := by
  have hin : ∀ g, ⟨g, qpNum⟩ ∈ c.nodeIdMap → ∃ id, (⟨⟨g, qpNum⟩, id⟩ : Sigma fun _ : NodeAddress => Nat) ∈
      c.nodeIdMap.entries.filter (fun e => e.1.qpNum = qpNum) := by
    intro g hg
    obtain ⟨id, hid⟩ := Option.isSome_iff_exists.1 (AList.lookup_isSome.2 hg)
    exact ⟨id, List.mem_filter.2 ⟨AList.mem_lookup_iff.1 hid, decide_eq_true rfl⟩⟩
  obtain ⟨id, hid⟩ := hin g h
  obtain ⟨id', hid'⟩ := hin g' h'
  unfold findSessionOfAddress
  rw [if_pos hbond]
  split
  · rename_i hf
    rw [hf] at hid
    cases hid
  · rename_i e hf
    rw [hf, List.mem_singleton] at hid hid'
    rw [← hid] at hid'
    cases hid'
    exact absurd rfl hne
  · rfl

/-- After any calls, the scan of a bonded device finds the session of a registered address that the exact lookup of
the other devices finds exactly if nobody has registered the queue pair number under another gid. -/
theorem bond_agrees_iff (es : List Call) (gid : BitVec 128) (qpNum session : Nat) (hreg : ∃ e ∈ es, e.lists gid qpNum) :
    ((construct true).calls es).findSessionOfAddress gid qpNum session =
        ((construct false).calls es).findSessionOfAddress gid qpNum session ↔
      ∀ e ∈ es, ∀ g, e.lists g qpNum → g = gid := by
  set c := (construct false).calls es with hc
  have hbond : (construct true).calls es = { c with bond := true } := calls_withBond (construct false) true es
  have hmem : ∀ a, a ∈ c.nodeIdMap ↔ ∃ e ∈ es, e.lists a.gid a.qpNum := by
    intro a
    rw [hc, mem_nodeIdMap_calls]
    exact or_iff_right (AList.notMem_empty a)
  obtain ⟨id, hid⟩ := Option.isSome_iff_exists.1 (AList.lookup_isSome.2 ((hmem ⟨gid, qpNum⟩).2 hreg))
  have hexact : c.findSessionOfAddress gid qpNum session = some (some (id * 256 + session)) := by
    unfold findSessionOfAddress
    rw [hid, hc, calls_bond]
    rfl
  rw [hbond, hexact]
  constructor
  · intro heq e he g hg
    by_contra hne
    have hnone := scan_eq_none { c with bond := true } rfl session gid ((hmem ⟨g, qpNum⟩).2 ⟨e, he, hg⟩)
      ((hmem ⟨gid, qpNum⟩).2 hreg) hne
    rw [hnone] at heq
    cases heq
  · intro honly
    have hscan := scan_eq c.nodeIdMap hid fun a ha hq => by
      obtain ⟨e, he, hl⟩ := (hmem a).1 ha
      exact honly e he a.gid (hq ▸ hl)
    unfold findSessionOfAddress
    rw [if_pos rfl]
    simp only [hscan]

/-- Two hosts register queue pair 1: the exact lookup finds the first one's session, and the scan fails its
assertion. -/
theorem two_hosts_one_number :
    ((construct false).calls [.register "a" 7 [1], .register "b" 8 [1]]).findSessionOfAddress 7 1 0 = some (some 0) ∧
    ((construct true).calls [.register "a" 7 [1], .register "b" 8 [1]]).findSessionOfAddress 7 1 0 = none := by
  decide +kernel

/-- Two hosts with numbers of their own, after a reconnection. -/
theorem two_hosts_two_numbers :
    ((construct true).calls [.register "a" 7 [1], .register "b" 8 [2],
      .register "a" 7 [1]]).findSessionOfAddress 7 1 0 =
      ((construct false).calls [.register "a" 7 [1], .register "b" 8 [2],
        .register "a" 7 [1]]).findSessionOfAddress 7 1 0 :=
  (bond_agrees_iff _ 7 1 0 ⟨.register "a" 7 [1], by simp, rfl, by simp⟩).2 (by
    simp only [List.forall_mem_cons, Call.lists, List.mem_singleton]
    simp)

end RapidTransfer.Controller
