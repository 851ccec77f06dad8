/-
Three copies of one number: the list of a group, the number stored for its id, and the tails of its queue.
`setMulticastReplicas` replaces the list before the number can be refused, and the number is stored once, by the
first list or by the first send. The copies agree as long as a list is only replaced while no number is stored, or
by the same list (`replicas_consistent`).
-/
import RapidTransfer.Context.Crediting

namespace RapidTransfer

/-- The number of tails of a session's queue. -/
def PacketManager.sizes (m : PacketManager) (sid : Nat) : Option Nat := (m.mcastSendQueue sid).map (·.tailList.length)

theorem PacketManager.sizes_update {m m' : PacketManager} {ptr : Nat} {q q' : McastSendQueue}
    (hm : m'.mcastSendQueue = Function.update m.mcastSendQueue ptr (some q')) (hq : m.mcastSendQueue ptr = some q)
    (hlen : q'.tailList.length = q.tailList.length) : m'.sizes = m.sizes := by
  funext k
  unfold PacketManager.sizes
  rw [hm]
  by_cases hk : k = ptr
  · subst hk; simp [hq, hlen]
  · rw [Function.update_of_ne hk]

namespace ContextMcast

open RapidTransfer.Core

/-! ## What an event can do to the three copies -/

/-- The first use of a session stores the number of its node and makes a queue with as many tails. -/
def Opened (m : PacketManager) (sid : Nat) (m' : PacketManager) : Prop :=
  m'.mcastReplicaNum = Function.update m.mcastReplicaNum (sid / 256) (some ((m.mcastReplicaNum (sid / 256)).getD 0)) ∧
    m'.sizes = Function.update m.sizes sid (some ((m.mcastReplicaNum (sid / 256)).getD 0))

inductive ReplicaStep (c c' : ContextMcast) : Event → Prop
  | quiet {e : Event}
      (hgroups : ∀ addr g, c'.controller.multicastContextMap.lookup addr = some g →
        c.controller.multicastContextMap.lookup addr = some g ∨ g.replicas = [])
      (hnum : c'.packetManager.mcastReplicaNum = c.packetManager.mcastReplicaNum)
      (hsize : c'.packetManager.sizes = c.packetManager.sizes) : ReplicaStep c c' e
  | opened {e : Event} {sid : Nat} (hctrl : c'.controller = c.controller)
      (h : Opened c.packetManager sid c'.packetManager) : ReplicaStep c c' e
  | replicas {addr : String} {peers : List String} {g : RdmaMulticastContext}
      (hg : c.controller.multicastContextMap.lookup addr = some g)
      (hctrl : c'.controller = c.controller.setReplicas addr g peers)
      (hmgr : c'.packetManager = (c.packetManager.setMulticastReplicaNum g.groupId peers.length).2) :
      ReplicaStep c c' (.setMulticastReplicas addr peers)

/-- A session that is opened, and then its queue is pushed to or not. -/
theorem ReplicaStep.of_opened {c c' : ContextMcast} {e : Event} {sid : Nat} {ret : Int} {core : Core}
    (ho : c.openSession sid = some (ret, core)) (hctrl : c'.controller = core.controller)
    (hnum : c'.packetManager.mcastReplicaNum = core.packetManager.mcastReplicaNum)
    (hsize : c'.packetManager.sizes = core.packetManager.sizes) : ReplicaStep c c' e := by
  have hctrl := hctrl.trans (openSession_frame ho).1
  have hquiet : core.packetManager.mcastReplicaNum = c.packetManager.mcastReplicaNum →
      core.packetManager.sizes = c.packetManager.sizes → ReplicaStep c c' e :=
    fun hn hz => .quiet (fun _ _ hg => .inl (hctrl ▸ hg)) (hnum.trans hn) (hsize.trans hz)
  obtain he | ⟨pool, hs⟩ := openSession_manager ho
  · exact hquiet (by rw [he]) (by rw [he])
  · obtain ⟨hq, hn⟩ | ⟨-, q, hq, hqueue, hn⟩ := hs.mcast
    · exact hquiet hn (by unfold PacketManager.sizes; rw [hq])
    · obtain ⟨r, -, rfl⟩ := Option.map_eq_some_iff.1 hq
      refine .opened hctrl ⟨hnum.trans hn, ?_⟩
      rw [hsize]
      funext k
      unfold PacketManager.sizes
      rw [hqueue]
      by_cases hk : k = sid
      · subst hk; simp
      · simp [Function.update_of_ne hk]

theorem replicaStep {c c' : ContextMcast} {e : Event} (hs : step c e = some c') : ReplicaStep c c' e := by
  have hsame : ∀ {x : ContextMcast}, x.controller = c.controller → x.packetManager.mcastReplicaNum =
      c.packetManager.mcastReplicaNum → x.packetManager.sizes = c.packetManager.sizes → ReplicaStep c x e :=
    fun hctrl => .quiet fun _ _ hg => .inl (hctrl ▸ hg)
  cases effect hs with
  | registered => exact .quiet (fun _ _ hg => .inl hg) rfl rfl
  | @joined addr constructed =>
    refine .quiet (fun a g hg => ?_) rfl rfl
    obtain ⟨-, he⟩ | ⟨-, -, he⟩ | ⟨-, -, he⟩ := c.controller.joinMulticast_cases addr constructed
    · rw [he] at hg; exact .inl hg
    · rw [he] at hg; exact .inl hg
    · rw [he] at hg
      rcases Controller.lookup_joined hg with ⟨-, rfl⟩ | ⟨-, hg⟩
      · exact .inr rfl
      · exact .inl hg
  | left =>
    refine .quiet (fun a g hg => .inl ?_) rfl rfl
    unfold Controller.leaveMulticast at hg
    split at hg
    · exact (Controller.lookup_erase_some hg).2
    · exact hg
  | replicasSet hg => exact .replicas hg rfl rfl
  | refused _ ho => exact .of_opened ho rfl rfl rfl
  | sendPushed _ _ ho _ _ hq hpush hpu =>
    refine .of_opened ho hpu.controller (by simp only [hpu.packetManager]; rfl) ?_
    exact PacketManager.sizes_update (congrArg (·.mcastSendQueue) hpu.packetManager) hq
      (congrArg List.length (McastSendQueue.push_tailList hpush))
  | receivePushed _ _ ho _ _ _ _ hpu =>
    exact .of_opened ho hpu.controller (by simp only [hpu.packetManager]; rfl)
      (by unfold PacketManager.sizes; simp only [hpu.packetManager]; rfl)
  | acksSent hx =>
    obtain ⟨-, st, m, rfl⟩ := sendAcks_frame hx
    exact hsame rfl rfl rfl
  | dataSent hx =>
    have hkept := sendDataPackets_rule (P := fun x => x.controller = c.controller ∧
      x.packetManager.mcastReplicaNum = c.packetManager.mcastReplicaNum ∧
      x.packetManager.sizes = c.packetManager.sizes) ?_ ⟨rfl, rfl, rfl⟩ hx
    · exact hsame hkept.1 hkept.2.1 hkept.2.2
    · rintro x sid x' r ⟨hctrl, hnum, hsize⟩ hses
      obtain ⟨rfl, -⟩ | ⟨e, ptr, q, q', depth, -, -, hq, ht, -, rfl⟩ := sendSession_some hses
      · exact ⟨hctrl, hnum, hsize⟩
      · exact ⟨hctrl, hnum, (PacketManager.sizes_update rfl hq (congrArg List.length ht)).trans hsize⟩
  | dataArrived _ _ _ _ _ hd =>
    obtain ⟨q', mv, mem, -, rfl⟩ := receiveData_some hd
    exact hsame rfl rfl rfl
  | ackArrived _ _ _ _ _ hq hr =>
    obtain ⟨cwnd, incr, srtt, rttval, rfl⟩ := receiveAck_some hr
    exact hsame rfl rfl (PacketManager.sizes_update rfl hq (McastSendQueue.length_markCompleted _ _ _ _))
  | @completed r =>
    obtain ⟨-, st, m, he⟩ := completeSend_frame c.toCore r
    rw [he]
    exact hsame rfl rfl rfl
  | _ => exact hsame rfl rfl rfl

/-! ## The copies agree -/

/-- A list is set while no number is stored for its group, or is the list that is there. -/
def keepsList (c : ContextMcast) : Event → Bool
  | .setMulticastReplicas addr peers => (c.controller.getMulticastContext addr).all fun g =>
      decide (c.packetManager.mcastReplicaNum g.groupId = none ∨ peers = g.replicas)
  | _ => true

structure Consistent (c : ContextMcast) : Prop where
  distinct : c.controller.DistinctIds
  listed : ∀ addr g, c.controller.multicastContextMap.lookup addr = some g → g.replicas ≠ [] →
    c.packetManager.mcastReplicaNum g.groupId = some g.replicas.length
  sized : ∀ sid n, c.packetManager.sizes sid = some n → c.packetManager.mcastReplicaNum (sid / 256) = some n

namespace Consistent

variable {c c' : ContextMcast}

theorem start {cfg : Config} (h : start cfg = some c) : Consistent c := by
  obtain ⟨core, hcore, rfl⟩ := Option.map_eq_some_iff.1 h
  obtain ⟨r, -, rfl⟩ := Option.map_eq_some_iff.1 hcore
  refine ⟨.construct _, fun addr g hg => ?_, fun sid n hn => ?_⟩
  · simp [Controller.construct] at hg
  · simp [PacketManager.sizes, PacketManager.construct] at hn

/-- A session is opened: a group without a number has no list. -/
theorem opened (h : Consistent c) {sid : Nat} (hctrl : c'.controller = c.controller)
    (ho : Opened c.packetManager sid c'.packetManager) : Consistent c' := by
  obtain ⟨hnum, hsize⟩ := ho
  have hkeep : ∀ id n, c.packetManager.mcastReplicaNum id = some n → c'.packetManager.mcastReplicaNum id = some n := by
    intro id n hn
    rw [hnum]
    by_cases hid : id = sid / 256
    · subst hid; simp [hn]
    · rw [Function.update_of_ne hid]; exact hn
  refine ⟨hctrl ▸ h.distinct, fun addr g hg hne => hkeep _ _ (h.listed addr g (hctrl ▸ hg) hne), fun k n hn => ?_⟩
  rw [hsize] at hn
  by_cases hk : k = sid
  · subst hk
    rw [Function.update_self] at hn
    rw [hnum, Function.update_self, hn]
  · rw [Function.update_of_ne hk] at hn
    exact hkeep _ _ (h.sized k n hn)

/-- A list is replaced, and its length is stored if there was none. -/
theorem setReplicas (h : Consistent c) {addr : String} {peers : List String} {g : RdmaMulticastContext}
    (hg : c.controller.multicastContextMap.lookup addr = some g)
    (hok : c.packetManager.mcastReplicaNum g.groupId = none ∨ peers = g.replicas)
    (hctrl : c'.controller = c.controller.setReplicas addr g peers)
    (hmgr : c'.packetManager = (c.packetManager.setMulticastReplicaNum g.groupId peers.length).2) : Consistent c' := by
  obtain ⟨hqueue, hnum⟩ := c.packetManager.setMulticastReplicaNum_cases g.groupId peers.length
  rw [← hmgr] at hqueue hnum
  have hsize : c'.packetManager.sizes = c.packetManager.sizes := by
    unfold PacketManager.sizes
    rw [hqueue]
  refine ⟨?_, fun a x hx hne => ?_, fun sid n hn => ?_⟩
  · rw [hctrl]
    exact h.distinct.of_groups (le_refl _) fun _ _ hx => Controller.lookup_setReplicas hg hx
  · rw [hctrl] at hx
    rcases Controller.lookup_joined hx with ⟨rfl, rfl⟩ | ⟨ha, hx⟩
    · rcases hok with hnone | rfl
      · rw [hmgr, PacketManager.setMulticastReplicaNum, hnone]
        exact Function.update_self _ _ _
      · have hold := h.listed a g hg hne
        rcases hnum g.groupId with ⟨-, hnone, -⟩ | he
        · rw [hnone] at hold; cases hold
        · exact he.trans hold
    · -- another group has another id
      rcases hnum x.groupId with ⟨hid, -, -⟩ | he
      · exact absurd (h.distinct.unique a addr x g hx hg hid) ha
      · exact he.trans (h.listed a x hx hne)
  · have hold := h.sized sid n (hsize ▸ hn)
    rcases hnum (sid / 256) with ⟨-, hnone, -⟩ | he
    · rw [hnone] at hold; cases hold
    · exact he.trans hold

theorem step (h : Consistent c) {e : Event} (hok : keepsList c e = true) (hs : ContextMcast.step c e = some c') :
    Consistent c' := by
  cases replicaStep hs with
  | quiet hgroups hnum hsize =>
    refine ⟨(step_controller hs).1.distinctIds h.distinct, fun addr g hg hne => ?_, fun sid n hn => ?_⟩
    · rcases hgroups addr g hg with hg | hnil
      · rw [hnum]; exact h.listed addr g hg hne
      · exact absurd hnil hne
    · rw [hnum]
      exact h.sized sid n (hsize ▸ hn)
  | opened hctrl ho => exact h.opened hctrl ho
  | @replicas addr peers g hg hctrl hmgr =>
    have hall : (c.controller.getMulticastContext addr).all (fun g =>
        decide (c.packetManager.mcastReplicaNum g.groupId = none ∨ peers = g.replicas)) = true := hok
    rw [show c.controller.getMulticastContext addr = some g from hg] at hall
    exact h.setReplicas hg (of_decide_eq_true hall) hctrl hmgr

end Consistent

/-- A refused call leaves the list and the numbers alone. -/
def Atomic (c : ContextMcast) (addr : String) (peers : List String) : Prop :=
  (c.setMulticastReplicas addr peers).1 ≠ 0 →
    (c.setMulticastReplicas addr peers).2.controller.getMulticastContext addr = c.controller.getMulticastContext addr ∧
    (c.setMulticastReplicas addr peers).2.packetManager.mcastReplicaNum = c.packetManager.mcastReplicaNum

theorem atomic_iff (c : ContextMcast) (addr : String) (peers : List String) :
    Atomic c addr peers ↔ keepsList c (.setMulticastReplicas addr peers) = true := by
  unfold Atomic keepsList
  cases hg : c.controller.getMulticastContext addr with
  | none =>
    have hcall : c.setMulticastReplicas addr peers = (-1, c) := by simp [setMulticastReplicas, hg]
    rw [hcall]
    simp [hg]
  | some g =>
    cases hn : c.packetManager.mcastReplicaNum g.groupId with
    | none =>
      have hcall : (c.setMulticastReplicas addr peers).1 = 0 := by
        simp [setMulticastReplicas, hg, PacketManager.setMulticastReplicaNum, hn]
      simp [hcall, hg, hn]
    | some n =>
      have hcall : c.setMulticastReplicas addr peers =
          (-1, { c with controller := c.controller.setReplicas addr g peers }) := by
        simp [setMulticastReplicas, hg, PacketManager.setMulticastReplicaNum, hn]
      have hnew : (c.controller.setReplicas addr g peers).getMulticastContext addr =
        some { g with replicas := peers } :=
        AList.lookup_insert _
      have hsame : ({ g with replicas := peers } : RdmaMulticastContext) = g ↔ peers = g.replicas := by
        cases g
        simp
      rw [hcall]
      simp [hnew, hg, hn, hsame]

/-- In every run whose lists are set while no number is stored for their group, or are the lists that are there: a
group with a list has its length as number, and as many tails in every queue of its sessions. In the state reached,
a refused call leaves everything alone exactly when it meets the condition itself. -/
theorem replicas_consistent (cfg : Config) (c0 c : ContextMcast) (es : List Event) (h0 : start cfg = some c0)
    (hrun : Runs.Run step (fun c e => ok c e ∧ keepsList c e = true) c0 es c) :
    (∀ addr g, c.controller.multicastContextMap.lookup addr = some g → g.replicas ≠ [] →
      c.packetManager.mcastReplicaNum g.groupId = some g.replicas.length ∧
      ∀ s < 256, ∀ q, c.packetManager.mcastSendQueue (g.groupId * 256 + s) = some q →
        q.tailList.length = g.replicas.length) ∧
    ∀ addr peers, Atomic c addr peers ↔ keepsList c (.setMulticastReplicas addr peers) = true := by
  have h := hrun.invariant (P := Consistent) (.start h0) fun _ _ _ hx hok hs => hx.step hok.2 hs
  refine ⟨fun addr g hg hne => ⟨h.listed addr g hg hne, fun s hs q hq => ?_⟩, atomic_iff c⟩
  have hsize : c.packetManager.sizes (g.groupId * 256 + s) = some q.tailList.length := by
    unfold PacketManager.sizes
    rw [hq]
    rfl
  have hnum := h.sized _ _ hsize
  rw [show (g.groupId * 256 + s) / 256 = g.groupId by omega, h.listed addr g hg hne] at hnum
  exact (Option.some.inj hnum).symm

/-- A second, longer list is refused and stored. -/
theorem refused_list_stored : ∃ c0 c, start (smallConfig 512) = some c0 ∧
    Runs.Run step ok c0 [.joinMulticast "224.0.0.1" true true, .setMulticastReplicas "224.0.0.1" ["a"]] c ∧
    (c.setMulticastReplicas "224.0.0.1" ["a", "b"]).1 = -1 ∧
    c.controller.getMulticastContext "224.0.0.1" = some ⟨0, ["a"]⟩ ∧
    (c.setMulticastReplicas "224.0.0.1" ["a", "b"]).2.controller.getMulticastContext "224.0.0.1" =
      some ⟨0, ["a", "b"]⟩ ∧
    (c.setMulticastReplicas "224.0.0.1" ["a", "b"]).2.packetManager.mcastReplicaNum 0 = some 1 := by
  obtain ⟨c0, c, h0, hrun, ht⟩ := Runs.exists_run_of_start step ok (start (smallConfig 512))
    [.joinMulticast "224.0.0.1" true true, .setMulticastReplicas "224.0.0.1" ["a"]]
    (fun c => decide ((c.setMulticastReplicas "224.0.0.1" ["a", "b"]).1 = -1 ∧
      c.controller.getMulticastContext "224.0.0.1" = some ⟨0, ["a"]⟩ ∧
      (c.setMulticastReplicas "224.0.0.1" ["a", "b"]).2.controller.getMulticastContext "224.0.0.1" =
        some ⟨0, ["a", "b"]⟩ ∧
      (c.setMulticastReplicas "224.0.0.1" ["a", "b"]).2.packetManager.mcastReplicaNum 0 = some 1)) (by decide +kernel)
  exact ⟨c0, c, h0, hrun, of_decide_eq_true ht⟩

/-- A list of two before the first send: two tails. -/
theorem two_replicas_consistent : ∃ c0 c q, start (smallConfig 512) = some c0 ∧
    Runs.Run step (fun c e => ok c e ∧ keepsList c e = true) c0 [.joinMulticast "224.0.0.1" true true,
      .setMulticastReplicas "224.0.0.1" ["a", "b"], .send "224.0.0.1" [⟨100, 2⟩]] c ∧
    c.packetManager.mcastSendQueue (0 * 256 + 0) = some q ∧ q.tailList.length = 2 := by
  obtain ⟨c0, c, h0, hrun, ht⟩ := Runs.exists_run_of_start step (fun c e => ok c e ∧ keepsList c e = true)
    (start (smallConfig 512)) [.joinMulticast "224.0.0.1" true true, .setMulticastReplicas "224.0.0.1" ["a", "b"],
      .send "224.0.0.1" [⟨100, 2⟩]]
    (fun c => decide (c.controller.multicastContextMap.lookup "224.0.0.1" = some ⟨0, ["a", "b"]⟩ ∧
      (c.packetManager.mcastSendQueue (0 * 256 + 0)).isSome = true)) (by decide +kernel)
  obtain ⟨hg, hq⟩ := of_decide_eq_true ht
  obtain ⟨q, hq⟩ := Option.isSome_iff_exists.1 hq
  exact ⟨c0, c, q, h0, hrun, hq,
    ((replicas_consistent _ c0 c _ h0 hrun).1 "224.0.0.1" ⟨0, ["a", "b"]⟩ hg (by simp)).2 0 (by decide) q hq⟩

end ContextMcast

end RapidTransfer
