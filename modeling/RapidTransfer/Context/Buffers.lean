/-
The packets a node keeps posted for receiving. A completion takes one off its queue pair, and
`processReceivedPacket` posts it again on its last line, on the queue pair the map names. There is
always room for that: no more packets are in circulation than one queue pair can hold. But a packet too
short for its header returns before that line, and its buffer is never posted again:
`buffers_conserved` says that this is the only way to lose one.
-/
import RapidTransfer.Context.Node
import RapidTransfer.Context.Links

namespace RapidTransfer

open RapidTransfer.Core RapidTransfer.Context

/-! ## Counting -/

namespace Receives

/-- The packets that wait on a queue pair. -/
def packets (r : Receives) : List Nat := r.outstanding.map (·.2)

/-- The depth counters count the outstanding requests, and one queue pair could hold them all. -/
structure Tallied (maxWrDepth : Int) (r : Receives) : Prop where
  depth : ∀ q, r.wrDepth q = (r.outstanding.countP (·.1 == q) : Nat)
  le : r.outstanding.length ≤ maxWrDepth.toNat

variable {m : Int} {r r' : Receives} {packet qp : Nat} {wr : Nat × Nat} {accepted : Bool} {ret : Int}

/-- Everything the post of a packet can do. -/
theorem postReceiveRequest_cases (h : r.postReceiveRequest m packet qp accepted = some (ret, r')) :
    (r' = r ∧ 0 ≤ ret ∧ (accepted = false ∨ m = r.wrDepth qp)) ∨
    (accepted = true ∧ ret = 1 ∧ r.wrDepth qp < m ∧ r' =
      { r with
        wrDepth := Function.update r.wrDepth qp (r.wrDepth qp + 1)
        outstanding := r.outstanding ++ [(qp, packet)] }) := by
  unfold postReceiveRequest at h
  simp only at h
  split at h
  · cases h
    exact .inl ⟨rfl, le_refl 0, .inr (by omega)⟩
  · split at h
    · cases h
    · split at h
      · rename_i ha
        cases h
        exact .inl ⟨rfl, by omega, .inl (by simpa using ha)⟩
      · rename_i ha
        cases h
        exact .inr ⟨by simpa using ha, by omega, by omega, rfl⟩

theorem Tallied.complete (h : Tallied m r) (hwr : wr ∈ r.outstanding) :
    (∀ q, (r.complete wr).wrDepth q = ((r.complete wr).outstanding.countP (·.1 == q) : Nat)) ∧
      (r.complete wr).outstanding.length + 1 = r.outstanding.length := by
  constructor
  · intro q
    have hd := h.depth q
    simp only [Receives.complete, List.countP_erase, Function.update_apply]
    by_cases hq : q = wr.1
    · have hpos : 0 < r.outstanding.countP (·.1 == q) := List.countP_pos_iff.2 ⟨wr, hwr, by simp [hq]⟩
      simp only [hq, if_true, hwr, beq_self_eq_true, and_self] at hd hpos ⊢
      omega
    · have hne : (wr.1 == q) = false := by simpa using Ne.symm hq
      simp only [hq, if_false, hne, Bool.false_eq_true, and_false, Nat.sub_zero]
      exact hd
  · simp only [Receives.complete, List.length_erase_of_mem hwr]
    have := List.length_pos_of_mem hwr
    omega

/-- A packet that goes onto a queue pair with fewer requests than there is room for. -/
theorem tallied_append (hd : ∀ q, r.wrDepth q = (r.outstanding.countP (·.1 == q) : Nat))
    (hle : r.outstanding.length + 1 ≤ m.toNat) (qp packet : Nat) :
    Tallied m { r with
      wrDepth := Function.update r.wrDepth qp (r.wrDepth qp + 1)
      outstanding := r.outstanding ++ [(qp, packet)] } := by
  constructor
  · intro q
    have hq := hd q
    simp only [List.countP_append, List.countP_singleton, Function.update_apply]
    by_cases hqp : q = qp
    · subst hqp
      simp only [if_true, beq_self_eq_true]
      omega
    · have hne : (qp == q) = false := by simpa using Ne.symm hqp
      simp only [hqp, if_false, hne, Bool.false_eq_true, Nat.add_zero]
      exact hq
  · simpa using hle

theorem Tallied.packets_complete (wr : Nat × Nat) (hwr : wr ∈ r.outstanding) :
    r.packets.Perm (wr.2 :: (r.complete wr).packets) :=
  (List.perm_cons_erase hwr).map _

end Receives

namespace Node

variable {n n' : Node} {ts : Nat}

abbrev Tallied (n : Node) : Prop := n.receives.Tallied n.core.endpointStore.maxWrDepth

/-! ## One completion -/

/-- The packet of a completion is long enough for its header. -/
def Completion.whole (w : Completion) : Bool := decide (pktHdrSize + grhSize ≤ w.arrival.bytes.length)

theorem packet_isSome (w : Completion) : w.arrival.packet.isSome = Completion.whole w := by
  unfold Arrival.packet deserialize Completion.whole
  split
  · rename_i hlt
    simp only [Option.isSome_none, Bool.false_eq, decide_eq_false_iff_not, not_le]
    exact hlt
  · rename_i hle
    simp only [Option.isSome_some, Bool.true_eq, decide_eq_true_eq]
    exact not_lt.1 hle

/-- Everything a receive completion does to the receive side. -/
theorem completeReceive_cases {w : Completion} (h : n.completeReceive ts w = some n') :
    (Completion.whole w = false ∧ n'.receives = n.receives.complete w.wr ∧ n'.cache = n.cache.deallocate) ∨
    (Completion.whole w = true ∧ n'.cache = n.cache.allocate.deallocate ∧ ∃ index map ret,
      ({ n.receives.complete w.wr with qpIndexMap := map } : Receives).postReceiveRequest
        n.core.endpointStore.maxWrDepth w.wr.2 index w.accepted = some (ret, n'.receives)) := by
  obtain ⟨m, hm, rfl⟩ := Option.map_eq_some_iff.1 h
  unfold processReceivedPacket at hm
  split at hm
  · rename_i hp
    cases hm
    have hw := packet_isSome w
    rw [hp] at hw
    exact .inl ⟨hw.symm, rfl, rfl⟩
  · rename_i p hp
    have hw := packet_isSome w
    rw [hp] at hw
    obtain ⟨core, hc, hsub⟩ := Option.bind_eq_some_iff.1 hm
    have hst : core.endpointStore = n.core.endpointStore :=
      step_endpointStore (c := n.core) (e := .arrive ts w.arrival) hc rfl
    obtain ⟨⟨ret, m'⟩, hr, rfl⟩ := Option.map_eq_some_iff.1 hsub
    obtain ⟨r, hpost, hx⟩ := Option.map_eq_some_iff.1 hr
    cases hx
    rw [hst] at hpost
    exact .inr ⟨hw.symm, rfl, _, _, r.1, hpost⟩

/-- A completion keeps the tally; a whole packet is posted again, a short one is gone. -/
theorem completeReceive_tallied {w : Completion} (ht : n.Tallied) (hwr : w.wr ∈ n.receives.outstanding)
    (h : n.completeReceive ts w = some n') :
    n'.receives.Tallied n.core.endpointStore.maxWrDepth ∧
      (n.receives.outstanding.erase w.wr).Sublist n'.receives.outstanding ∧
      (Completion.whole w = false → n.receives.packets.Perm (w.wr.2 :: n'.receives.packets)) ∧
      (Completion.whole w = true → w.accepted = true → n'.receives.packets.Perm n.receives.packets) := by
  obtain ⟨hdepth, hlen⟩ := Receives.Tallied.complete ht hwr
  have hle := ht.le
  have hback := Receives.Tallied.packets_complete w.wr hwr
  obtain ⟨hshort, hr, -⟩ | ⟨hwhole, -, index, map, ret, hpost⟩ := completeReceive_cases h
  · rw [hr, hshort]
    exact ⟨⟨hdepth, by omega⟩, List.Sublist.refl _, fun _ => hback, fun hc => by cases hc⟩
  · rw [hwhole]
    obtain ⟨hr, -, hwhy⟩ | ⟨-, -, -, hr⟩ := Receives.postReceiveRequest_cases hpost
    · rw [hr]
      refine ⟨⟨hdepth, by simp only; omega⟩, List.Sublist.refl _, fun hc => (by cases hc), fun _ hacc => ?_⟩
      -- the queue pair has room: the packet just left one, and one can hold them all
      rcases hwhy with hwhy | hwhy
      · rw [hwhy] at hacc; cases hacc
      · have hcount := List.countP_le_length (p := (·.1 == index)) (l := (n.receives.complete w.wr).outstanding)
        rw [hdepth index] at hwhy
        omega
    · rw [hr]
      have hroom : (n.receives.complete w.wr).outstanding.length + 1 ≤ n.core.endpointStore.maxWrDepth.toNat := by omega
      have happend := Receives.tallied_append hdepth hroom index w.wr.2
      refine ⟨⟨happend.depth, happend.le⟩, List.sublist_append_left _ _,
        fun hc => (by cases hc), fun _ _ => ?_⟩
      have happ : (({ n.receives.complete w.wr with qpIndexMap := map } : Receives).outstanding ++
          [(index, w.wr.2)]).map (·.2) = (n.receives.complete w.wr).packets ++ [w.wr.2] := by
        simp [Receives.packets]
      unfold Receives.packets
      simp only
      rw [happ]
      exact (List.perm_append_singleton _ _).trans hback.symm

/-- The first completion of a poll, after which the others are still of outstanding requests. -/
theorem completeReceive_first {w : Completion} {ws : List Completion} {m : Node} (ht : n.Tallied)
    (hsub : ((w :: ws).map (·.wr)).Subperm n.receives.outstanding) (hm : n.completeReceive ts w = some m) :
    m.Tallied ∧ (ws.map (·.wr)).Subperm m.receives.outstanding ∧
      (Completion.whole w = false → n.receives.packets.Perm (w.wr.2 :: m.receives.packets)) ∧
      (Completion.whole w = true → w.accepted = true → m.receives.packets.Perm n.receives.packets) := by
  have hwr : w.wr ∈ n.receives.outstanding := hsub.subset (by simp)
  obtain ⟨hmt, hleft, hshort, hwhole⟩ := completeReceive_tallied ht hwr hm
  refine ⟨?_, ?_, hshort, hwhole⟩
  · unfold Node.Tallied
    rw [step_endpointStore (completeReceive_core hm) rfl]
    exact hmt
  · have he := hsub.erase w.wr
    rw [List.map_cons, List.erase_cons_head] at he
    exact he.trans hleft.subperm

/-- What a poll does to the receive side: the packets that are too short are gone. -/
theorem pollReceives_tallied : ∀ {ws : List Completion} {n n' : Node}, n.Tallied →
    (ws.map (·.wr)).Subperm n.receives.outstanding → n.pollReceives ts ws = some n' →
    n'.Tallied ∧ ((∀ w ∈ ws, w.accepted = true) → n.receives.packets.Perm
      (n'.receives.packets ++ (ws.filter fun w => !Completion.whole w).map (·.wr.2)))
  | [], n, n', ht, _, h => by
    cases h
    refine ⟨ht, fun _ => ?_⟩
    simp
  | w :: ws, n, n', ht, hsub, h => by
    obtain ⟨m, hm, hrest⟩ := Option.bind_eq_some_iff.1 h
    obtain ⟨hmt, hsub', hshort, hwhole⟩ := completeReceive_first ht hsub hm
    obtain ⟨hn', hperm⟩ := pollReceives_tallied hmt hsub' hrest
    refine ⟨hn', fun hacc => ?_⟩
    have ih := hperm fun x hx => hacc x (List.mem_cons_of_mem w hx)
    cases hw : Completion.whole w with
    | true =>
      rw [List.filter_cons_of_neg (by simp [hw])]
      exact (hwhole hw (hacc w List.mem_cons_self)).symm.trans ih
    | false =>
      rw [List.filter_cons_of_pos (by simp [hw]), List.map_cons]
      exact (hshort hw).trans ((ih.cons _).trans List.perm_middle.symm)

/-! ## The other events -/

theorem sendSession_receives {draw : Nat → Post} {sid : Nat} {b : Bool} {g : Ledger}
    (h : sendSession ts draw n sid = some (b, n', g)) : n'.receives = n.receives := by
  unfold sendSession at h
  split at h
  · cases h
  · split at h
    · cases h; rfl
    · split at h
      · cases h
      · split at h
        · cases h
        · split at h
          · cases h
          · cases h; rfl
          · obtain ⟨x, -, hx⟩ := Option.map_eq_some_iff.1 h
            cases hx
            rfl

theorem sendDataPackets_receives {draw : Nat → Nat → Post} : ∀ {order : List Nat} {n n' : Node} {ret : Int}
    {log : List (Nat × Ledger)}, n.sendDataPackets ts draw order = some (ret, n', log) → n'.receives = n.receives
  | [], n, n', ret, log, h => by cases h; rfl
  | sid :: rest, n, n', ret, log, h => by
    unfold sendDataPackets at h
    split at h
    · cases h
    · rename_i hs; cases h; exact sendSession_receives hs
    · rename_i hs
      obtain ⟨⟨ret', n2, log'⟩, hr, hx⟩ := Option.map_eq_some_iff.1 h
      cases hx
      exact (sendDataPackets_receives hr).trans (sendSession_receives hs)

theorem sendAckPackets_receives : ∀ {order : List (Nat × Post)} {n n' : Node} {ret : Int},
    n.sendAckPackets order = some (ret, n') → n'.receives = n.receives
  | [], n, n', ret, h => by cases h; rfl
  | (sid, p) :: rest, n, n', ret, h => by
    unfold sendAckPackets at h
    split at h
    · cases h
    · split at h
      · cases h
      · split at h
        · split at h
          · cases h
          · rename_i r m hp
            obtain ⟨x, -, hx⟩ := Option.map_eq_some_iff.1 hp
            cases hx
            split at h
            · cases h; rfl
            · have ih := sendAckPackets_receives h
              exact ih
        · exact sendAckPackets_receives h

theorem pollSends_receives : ∀ (rs : List (Nat × Request)) (n : Node), (n.pollSends rs).receives = n.receives
  | [], _ => rfl
  | r :: rs, n => pollSends_receives rs (n.completeSend r)

/-- Only a poll of the receive queue moves packets. -/
theorem step_receives {e : Event} (hs : step n e = some n') :
    n'.receives = n.receives ∨ ∃ ts ws, e = .pollReceives ts ws := by
  cases e with
  | call f =>
    obtain ⟨core, -, rfl⟩ := Option.map_eq_some_iff.1 hs
    exact .inl rfl
  | sendAcks order =>
    obtain ⟨⟨ret, m⟩, hm, rfl⟩ := Option.map_eq_some_iff.1 hs
    exact .inl (sendAckPackets_receives hm)
  | sendData t order draw =>
    obtain ⟨⟨ret, m, log⟩, hm, rfl⟩ := Option.map_eq_some_iff.1 hs
    exact .inl (sendDataPackets_receives hm)
  | pollReceives t ws => exact .inr ⟨t, ws, rfl⟩
  | pollSends rs =>
    cases hs
    exact .inl (pollSends_receives rs n)

theorem step_maxWrDepth {e : Event} (hok : ok n e) (hs : step n e = some n') :
    n'.core.endpointStore.maxWrDepth = n.core.endpointStore.maxWrDepth := by
  obtain ⟨es, hrun⟩ := step_core hok hs
  exact (hrun.invariant (P := fun c => c.endpointStore.maxWrDepth = n.core.endpointStore.maxWrDepth ∧
    c.endpointStore.numQp = n.core.endpointStore.numQp) ⟨rfl, rfl⟩
    fun c f c' hc _ hf => step_store (EndpointStore.storeRule_limits _ _) hc hf).1

theorem Tallied.step {e : Event} (h : n.Tallied) (hok : ok n e) (hs : Node.step n e = some n') : n'.Tallied := by
  obtain he | ⟨ts, ws, rfl⟩ := step_receives hs
  · unfold Node.Tallied
    rw [he, step_maxWrDepth hok hs]
    exact h
  · exact (pollReceives_tallied h hok.2.1 hs).1

/-! ## The start -/

/-- While `construct` runs, everything goes to queue pair 0: the map has no entry for a packet that was
not submitted yet. -/
structure Starting (packets : List Nat) (n : Node) : Prop where
  tallied : n.Tallied
  first : ∀ wr ∈ n.receives.outstanding, wr.1 = 0
  unmapped : ∀ p ∈ packets, n.receives.qpIndexMap p = none

theorem Starting.depth {packets : List Nat} (h : Starting packets n) :
    n.receives.wrDepth 0 = n.receives.outstanding.length := by
  rw [h.tallied.depth 0, List.countP_eq_length.2 fun wr hwr => by simp [h.first wr hwr]]

/-- One packet of `construct`. -/
theorem Starting.submit {p : Nat} {ps : List Nat} {accepted : Bool} {ret : Int} {v : Option Nat}
    (h : Starting (p :: ps) n) (hnd : p ∉ ps) (hs : n.submitNormalRecvWR p accepted = some (ret, n')) :
    Starting ps { n' with receives := { n'.receives with
        qpIndexMap := Function.update n'.receives.qpIndexMap p v } } ∧ 0 ≤ ret ∧
      (accepted = true → n.receives.outstanding.length < n.core.endpointStore.maxWrDepth.toNat →
        n'.receives.outstanding.length = n.receives.outstanding.length + 1) := by
  have hdepth := h.depth
  have hp : n.receives.qpIndexMap p = none := h.unmapped p List.mem_cons_self
  have hmap : ∀ k ∈ ps, ∀ w : Option Nat,
      Function.update (Function.update n.receives.qpIndexMap p (some 0)) p w k = none := by
    intro k hk w
    have hne : k ≠ p := by rintro rfl; exact hnd hk
    rw [Function.update_of_ne hne, Function.update_of_ne hne]
    exact h.unmapped k (List.mem_cons_of_mem p hk)
  obtain ⟨r, hpost, hx⟩ := Option.map_eq_some_iff.1 hs
  rw [hp] at hpost
  simp only [Option.getD_none] at hpost
  cases hx
  obtain ⟨hr, hret, hwhy⟩ | ⟨-, hret, hroom, hr⟩ := Receives.postReceiveRequest_cases hpost
  · refine ⟨⟨?_, ?_, ?_⟩, hret, fun hacc hlt => ?_⟩
    · rw [hr]; exact ⟨h.tallied.depth, h.tallied.le⟩
    · rw [hr]; exact h.first
    · rw [hr]; exact fun k hk => hmap k hk v
    · rcases hwhy with hwhy | hwhy
      · rw [hwhy] at hacc; cases hacc
      · simp only at hwhy; omega
  · simp only at hroom
    have hle : n.receives.outstanding.length + 1 ≤ n.core.endpointStore.maxWrDepth.toNat := by omega
    have ht := Receives.tallied_append h.tallied.depth hle 0 p
    refine ⟨⟨?_, ?_, ?_⟩, by omega, fun _ _ => ?_⟩
    · rw [hr]; exact ⟨ht.depth, ht.le⟩
    · rw [hr]
      intro wr hwr
      rcases List.mem_append.1 hwr with hwr | hwr
      · exact h.first wr hwr
      · rw [List.mem_singleton.1 hwr]
    · rw [hr]; exact fun k hk => hmap k hk v
    · rw [hr]; simp

/-- The loop of `construct`; when all of them fit onto queue pair 0 and the verb takes them, all of them
are posted. -/
theorem Starting.submitHandles {accepted : Nat → Bool} :
    ∀ {hs : List PacketHandle} {ps : List Nat} {i : Nat} {n n' : Node},
    Starting ps n → hs.map (·.packetBuf) = ps.map some → ps.Nodup → submitHandles accepted i hs n = some n' →
    n'.Tallied ∧ n'.cache.inUse = n.cache.inUse + hs.length ∧
      ((∀ k, accepted k = true) → n.receives.outstanding.length + hs.length ≤ n.core.endpointStore.maxWrDepth.toNat →
        n'.receives.outstanding.length = n.receives.outstanding.length + hs.length)
  | [], ps, i, n, n', h, hps, _, hsub => by
    cases hsub
    exact ⟨h.tallied, by simp, fun _ _ => rfl⟩
  | hd :: hs, [], i, n, n', h, hps, _, hsub => by cases hps
  | hd :: hs, p :: ps, i, n, n', h, hps, hnd, hsub => by
    simp only [List.map_cons, List.cons.injEq] at hps
    rw [List.nodup_cons] at hnd
    unfold Node.submitHandles at hsub
    rw [hps.1] at hsub
    simp only at hsub
    split at hsub
    · cases hsub
    · rename_i ret m hm
      obtain ⟨hcore, hcache⟩ := submitNormalRecvWR_some hm
      obtain ⟨hstart, -, hone⟩ := h.submit (v := some (i % m.core.endpointStore.numQp)) hnd.1 hm
      split at hsub
      · cases hsub
      · obtain ⟨ht, huse, hall⟩ := hstart.submitHandles hps.2 hnd.2 hsub
        refine ⟨ht, ?_, fun hacc hle => ?_⟩
        · rw [huse, hcache]
          simp only [RequestCache.inUse_allocate, List.length_cons, Nat.cast_add, Nat.cast_one]
          omega
        · simp only [List.length_cons] at hle ⊢
          have h1 := hone (hacc i) (by omega)
          have h2 := hall hacc (by simp only [h1, hcore]; omega)
          simp only [h1] at h2
          omega

theorem allocateMany_packets : ∀ {k : Nat} {p p' : PacketBufferPool} {hs : List PacketHandle},
    PacketManager.allocateMany p k = some (hs, p') → hs.map (·.packetBuf) = (p.freeBuffers.take k).map some ∧
      hs.length = k
  | 0, p, p', hs, h => by cases h; exact ⟨rfl, rfl⟩
  | k + 1, p, p', hs, h => by
    unfold PacketManager.allocateMany at h
    split at h
    · cases h
    · rename_i hd q hq
      obtain ⟨⟨hs', q'⟩, hrest, hx⟩ := Option.map_eq_some_iff.1 h
      cases hx
      obtain ⟨hmap, hlen⟩ := allocateMany_packets hrest
      unfold PacketBufferPool.allocatePacket at hq
      split at hq
      · cases hq
      · rename_i slot free hfree
        cases hq
        refine ⟨?_, by simp [hlen]⟩
        rw [hfree, List.take_succ_cons, List.map_cons, List.map_cons, hmap]
        rfl

/-- The node `construct` leaves. -/
theorem construct_tallied {cfg : Config} {accepted : Nat → Bool} (h : construct cfg accepted = some n) :
    n.Tallied ∧ n.core.endpointStore.outstanding = [] ∧ n.cache.inUse = kNumReceiveHandles ∧
      ((∀ k, accepted k = true) → (kNumReceiveHandles : Int) ≤ cfg.maxWrPerQp →
        n.receives.outstanding.length = kNumReceiveHandles) := by
  obtain ⟨core, hc, hsub⟩ := Option.bind_eq_some_iff.1 h
  have hcore := submitHandles_core hsub
  obtain ⟨⟨hs, pool⟩, halloc, hx⟩ := Option.map_eq_some_iff.1 hc
  have hst : core.endpointStore = EndpointStore.construct cfg.numQp cfg.maxWrPerQp := by rw [← hx]
  split at halloc
  · cases halloc
  · obtain ⟨hps, hlen⟩ := allocateMany_packets halloc
    have hhandles : receiveHandles cfg = hs := by
      unfold receiveHandles
      rw [halloc]
      rfl
    rw [hhandles] at hsub
    have h0 : Starting ((PacketManager.construct cfg.raw cfg.mtuSize cfg.maxPackets
        cfg.queueCapacity).pool.freeBuffers.take kNumReceiveHandles) ⟨core, .construct, .construct⟩ := by
      constructor
      · exact ⟨fun _ => rfl, Nat.zero_le _⟩
      · intro wr hwr; cases hwr
      · intro p _; rfl
    obtain ⟨ht, huse, hall⟩ :=
      h0.submitHandles hps ((List.take_sublist _ _).nodup (List.nodup_reverse.2 List.nodup_range)) hsub
    refine ⟨ht, by rw [hcore, hst]; rfl, by rw [huse, hlen]; simp, fun hacc hle => ?_⟩
    have hroom : kNumReceiveHandles ≤ core.endpointStore.maxWrDepth.toNat := by
      rw [hst]
      simp only [EndpointStore.construct]
      omega
    have hposted := hall hacc (by rw [hlen, Receives.construct, List.length_nil, Nat.zero_add]; exact hroom)
    rw [hposted, hlen, Receives.construct, List.length_nil, Nat.zero_add]

/-! ## Conservation -/

/-- As many receive requests are outstanding as in the node `n0`, and for the same packets. -/
def BuffersOf (n0 n : Node) : Prop :=
  n.receives.outstanding.length = n0.receives.outstanding.length ∧ n.receives.packets.Perm n0.receives.packets

/-- `ibv_post_recv` takes every packet that is posted again. -/
def takesReceives : Event → Bool
  | .pollReceives _ ws => ws.all (·.accepted)
  | _ => true

/-- Every packet that arrives has room for a header behind its GRH. -/
def wholePackets : Event → Bool
  | .pollReceives _ ws => ws.all Completion.whole
  | _ => true

/-- A poll keeps the buffers exactly when every packet it finds is long enough. -/
theorem pollReceives_buffers_iff {n0 : Node} {ws : List Completion} (ht : n.Tallied) (hb : BuffersOf n0 n)
    (hok : ok n (.pollReceives ts ws)) (hacc : takesReceives (.pollReceives ts ws) = true)
    (hs : n.pollReceives ts ws = some n') : BuffersOf n0 n' ↔ wholePackets (.pollReceives ts ws) = true := by
  have hperm := (pollReceives_tallied ht hok.2.1 hs).2 (List.all_eq_true.1 hacc)
  have hlen := hperm.length_eq
  simp only [Receives.packets, List.length_append, List.length_map] at hlen
  constructor
  · intro hb'
    have hzero : (ws.filter fun w => !Completion.whole w).length = 0 := by
      have h1 := hb.1
      have h2 := hb'.1
      omega
    refine List.all_eq_true.2 fun w hw => ?_
    by_contra hne
    have hmem : w ∈ ws.filter fun w => !Completion.whole w := List.mem_filter.2 ⟨hw, by simpa using hne⟩
    rw [List.length_eq_zero_iff.1 hzero] at hmem
    cases hmem
  · intro hw
    have hnil : (ws.filter fun w => !Completion.whole w) = [] :=
      List.filter_eq_nil_iff.2 fun w hmem => by simp [List.all_eq_true.1 hw w hmem]
    rw [hnil, List.map_nil, List.append_nil] at hperm
    refine ⟨?_, hperm.symm.trans hb.2⟩
    rw [hnil, List.length_nil, Nat.add_zero] at hlen
    exact hlen.symm.trans hb.1

/-- As long as every packet has room for a header, every buffer that is consumed is posted again, and the
node waits with the buffers it had after `construct`; the next poll keeps them if and only if its packets
have that room. `ibv_post_recv` is taken to succeed. -/
theorem buffers_conserved {cfg : Config} {n0 n : Node} {es : List Event}
    (h0 : construct cfg (fun _ => true) = some n0)
    (hrun : Runs.Run step (fun m e => (ok m e ∧ takesReceives e = true) ∧ wholePackets e = true) n0 es n) :
    BuffersOf n0 n ∧ ∀ ts ws n', ok n (.pollReceives ts ws) → takesReceives (.pollReceives ts ws) = true →
      step n (.pollReceives ts ws) = some n' →
      (BuffersOf n0 n' ↔ ∀ w ∈ ws, pktHdrSize + grhSize ≤ w.arrival.bytes.length) := by
  have hinv : n.Tallied ∧ BuffersOf n0 n := by
    refine hrun.invariant (P := fun m => m.Tallied ∧ BuffersOf n0 m) ?_ ?_
    · exact ⟨(construct_tallied h0).1, rfl, .refl _⟩
    · rintro m e m' ⟨ht, hb⟩ ⟨⟨hok, hacc⟩, hwhole⟩ hs
      refine ⟨ht.step hok hs, ?_⟩
      obtain he | ⟨ts, ws, rfl⟩ := step_receives hs
      · unfold BuffersOf
        rw [he]
        exact hb
      · exact (pollReceives_buffers_iff ht hb hok hacc hs).2 hwhole
  refine ⟨hinv.2, fun ts ws n' hok hacc hs => ?_⟩
  rw [pollReceives_buffers_iff hinv.1 hinv.2 hok hacc hs]
  simp only [wholePackets, List.all_eq_true, Completion.whole, decide_eq_true_eq]

/-- The configuration with the default 128 requests for each queue pair. -/
def defaultConfig (maxPackets : Nat) : Config := { smallConfig maxPackets with maxWrPerQp := 128 }

/-- A packet of the given length from an address nobody registered, in the first buffer that was posted. -/
def stranger (length : Nat) : Completion := ⟨(0, 255), ⟨7, 1, none, List.replicate length 0⟩, true⟩

/-- A packet that is nothing but its GRH: its buffer is gone. -/
theorem bare_packet_loses_buffer : ∃ n0 n, construct (defaultConfig 256) (fun _ => true) = some n0 ∧
    Runs.Run step (fun m e => ok m e ∧ takesReceives e = true) n0 [.pollReceives 0 [stranger 40]] n ∧
    n0.receives.outstanding.length = 128 ∧ n.receives.outstanding.length = 127 ∧ ¬BuffersOf n0 n := by
  obtain ⟨n0, n, h0, hrun, ht⟩ := Runs.exists_run_of_start step (fun m e => ok m e ∧ takesReceives e = true)
    (construct (defaultConfig 256) fun _ => true) [.pollReceives 0 [stranger 40]]
    (fun n => decide (n.receives.outstanding.length = 127)) (by decide +kernel)
  have hn := of_decide_eq_true ht
  have hn0 := (construct_tallied h0).2.2.2 (fun _ => rfl) (by decide)
  refine ⟨n0, n, h0, hrun, hn0, hn, fun hb => ?_⟩
  rw [hb.1, hn0] at hn
  cases hn

/-- Two polls find packets of a stranger that have a header: all buffers stay. -/
theorem strange_packets_keep_buffers : ∃ n0 n n', construct (defaultConfig 256) (fun _ => true) = some n0 ∧
    Runs.Run step (fun m e => (ok m e ∧ takesReceives e = true) ∧ wholePackets e = true) n0
      [.pollReceives 0 [stranger 48]] n ∧
    step n (.pollReceives 0 [stranger 49]) = some n' ∧ BuffersOf n0 n ∧ BuffersOf n0 n' := by
  obtain ⟨n0, n', h0, hrun, -⟩ := Runs.exists_run_of_start step
    (fun m e => (ok m e ∧ takesReceives e = true) ∧ wholePackets e = true)
    (construct (defaultConfig 256) fun _ => true)
    ([.pollReceives 0 [stranger 48]] ++ [.pollReceives 0 [stranger 49]]) (fun _ => true) (by decide +kernel)
  obtain ⟨n, hfirst, hok, hs⟩ := hrun.snoc_inv
  have h := buffers_conserved h0 hfirst
  refine ⟨n0, n, n', h0, hfirst, hs, h.1, (h.2 0 _ n' hok.1.1 hok.1.2 hs).2 fun w hw => ?_⟩
  rw [List.mem_singleton.1 hw]
  decide

end Node

end RapidTransfer
