/-
Whose ACKs a tail stands for. The list of replicas belongs to a group, the tails belong to the queue of
its session, and the two are tied together only by the number of replicas the queue was made with. An ACK
says neither which peer it is from nor which group's data it acknowledges, so events come with their `Origin`.
`covers` are the calls and arrivals that do not pull lists, tails and origins apart, and `Attributed` is what
a run of such events keeps: every peer the group lists has a tail, and only its own ACKs of the group's data
have moved it.
-/
import RapidTransfer.Context.Backoff
import RapidTransfer.Controller.Groups
import RapidTransfer.Queue.Bound

namespace RapidTransfer.ContextMcast

open RapidTransfer.Core

/-! ## Acknowledgements -/

/-- Who has sent a packet, and the address of the group whose data it acknowledges if it is an ACK. The context sees
neither. -/
structure Origin where
  peer : String
  group : String
  deriving DecidableEq

/-- The ACK that arrives. -/
def ackOf : Event → Option Packet
  | .arrive _ a _ => a.packet.filter fun p => decide (p.cmd ≠ pktCmdData)
  | _ => none

/-- In the run of the events, the peer has acknowledged fragment `k` of the group that has this session, after it was
loaded. -/
def Acked (c0 : ContextMcast) (es : List (Event × Origin)) (sid : Nat) (peer : String) (k : Nat) : Prop :=
  ∃ es1 x es2 c g q p, es = es1 ++ x :: es2 ∧ Runs.Run step ok c0 (es1.map Prod.fst) c ∧
    ackOf x.1 = some p ∧ x.2.peer = peer ∧ c.controller.getMulticastContext x.2.group = some g ∧
    g.groupId * 256 = sid ∧ c.packetManager.mcastSendQueue sid = some q ∧ k < p.sn ∧ p.sn ≤ q.ring.head

theorem Acked.snoc {c0 : ContextMcast} {es : List (Event × Origin)} {sid k : Nat} {peer : String}
    (h : Acked c0 es sid peer k) (x : Event × Origin) : Acked c0 (es ++ [x]) sid peer k := by
  obtain ⟨es1, y, es2, c, g, q, p, rfl, hy⟩ := h
  exact ⟨es1, y, es2 ++ [x], c, g, q, p, by simp, hy⟩

/-- No group with a smaller address lists the peer. -/
def FirstListing (c : Controller) (addr peer : String) : Prop :=
  ∀ b g, c.multicastContextMap.lookup b = some g → peer ∈ g.replicas → addr ≤ b

theorem firstListing_iff {c : Controller} {addr peer : String} :
    FirstListing c addr peer ↔ ∀ e ∈ c.multicastContextMap.entries, peer ∈ e.2.replicas → addr ≤ e.1 := by
  constructor
  · intro h e he
    exact h e.1 e.2 (AList.mem_lookup_iff.2 he)
  · intro h b g hb
    exact h ⟨b, g⟩ (AList.mem_lookup_iff.1 hb)

instance (c : Controller) (addr peer : String) : Decidable (FirstListing c addr peer) :=
  decidable_of_iff _ firstListing_iff.symm

/-! ## Calls that keep the list and the tails together -/

/-- The tails of a session's queue. -/
def tails (c : ContextMcast) (sid : Nat) : Option (List Nat) := (c.packetManager.mcastSendQueue sid).map (·.tailList)

/-- The tails a group's queue has, or will be made with; before the number is known it can be any. -/
def tailsOf (c : ContextMcast) (groupId : Nat) : Option (List Nat) :=
  (c.packetManager.mcastReplicaNum groupId).map fun n => (tails c (groupId * 256)).getD (List.replicate n 0)

/-- Every position of the new list has a tail, and keeps its peer unless the tail has not moved. -/
def listFits (c : ContextMcast) (g : RdmaMulticastContext) (peers : List String) : Bool :=
  (tailsOf c g.groupId).all fun ts => decide (peers.length ≤ ts.length) &&
    decide (∀ i < peers.length, peers[i]? = g.replicas[i]? ∨ ts[i]? = some 0)

theorem listFits_some {c : ContextMcast} {g : RdmaMulticastContext} {peers : List String} {ts : List Nat}
    (h : listFits c g peers = true) (ht : tailsOf c g.groupId = some ts) :
    peers.length ≤ ts.length ∧ ∀ i < peers.length, peers[i]? = g.replicas[i]? ∨ ts[i]? = some 0 := by
  unfold listFits at h
  rw [ht] at h
  obtain ⟨hlen, hpos⟩ := Bool.and_eq_true_iff.1 h
  exact ⟨of_decide_eq_true hlen, of_decide_eq_true hpos⟩

/-- The group lists the peer. -/
def lists (c : Controller) (group peer : String) : Bool :=
  (c.getMulticastContext group).any fun g => decide (peer ∈ g.replicas)

/-- An ACK of a registered source must be from the peer the source is registered for; and if a group lists this peer,
the ACK must be for the data of a group that does, before which no other does. One on a group's queue pair from a source
that is not registered is counted at the end of the last group's list; that must be past the end of every list. -/
def ackFits (c : ContextMcast) (a : Arrival) (addr : Option String) (o : Origin) : Bool :=
  a.packet.all fun p => decide (p.cmd = pktCmdData) ||
    match (c.controller.findSessionOfAddress a.gid a.srcQp p.session).join with
    | some sid => decide (c.controller.peerNameRevMap (sid / 256) = some o.peer) &&
        (c.controller.groups.all (fun g => decide (o.peer ∉ g.replicas)) ||
          lists c.controller o.group o.peer && decide (FirstListing c.controller o.group o.peer))
    | none => (addr.bind fun x => c.controller.findSession x p.session).all fun sid =>
        c.controller.groups.all fun g => decide (g.replicas.length ≤ (c.controller.redirectMulticast sid).2)

/-- The calls and arrivals that keep lists and tails together, and pushes that do not reach `2^24`
fragments. -/
def covers (c : ContextMcast) (x : Event × Origin) : Bool :=
  match x.1 with
  | .setupConnection p _ _ _ _ => decide (p ∉ c.controller.multicastContextMap)
  | .setMulticastReplicas addr peers => (c.controller.getMulticastContext addr).all fun g => listFits c g peers
  | .send p bufs =>
    (mcastPush c (.send p bufs)).all fun r => fitsBelow r.1.ring.head r.1.ring.secondaryQueue r.2
  | .arrive _ a addr => ackFits c a addr x.2
  | _ => true

/-- What is assumed of an event with its origin. -/
def Covers (c : ContextMcast) (x : Event × Origin) : Prop := ok c x.1 ∧ covers c x = true

instance (c : ContextMcast) (x : Event × Origin) : Decidable (Covers c x) :=
  inferInstanceAs (Decidable (_ ∧ _))

/-- The context does not see origins. -/
def stepFrom (c : ContextMcast) (x : Event × Origin) : Option ContextMcast := step c x.1

/-! ## The invariant -/

/-- Ids of groups. -/
theorem grouped_step {c c' : ContextMcast} {e : Event} {o : Origin} (h : c.controller.Grouped)
    (hcov : covers c (e, o) = true) (hs : step c e = some c') : c'.controller.Grouped := by
  have hc := (step_controller hs).1
  generalize c'.controller = k at hc
  cases hc with
  | same => exact h
  | register => exact h.registerNode (of_decide_eq_true hcov) _ _
  | join => exact h.joinMulticast _ _
  | leave => exact h.leaveMulticast _
  | replicas hg => exact h.setReplicas hg _

/-- One queue is written. -/
theorem tails_update {c d : ContextMcast} {sid : Nat} {q : McastSendQueue}
    (h : d.packetManager.mcastSendQueue = Function.update c.packetManager.mcastSendQueue sid (some q)) (k : Nat) :
    tails d k = if k = sid then some q.tailList else tails c k := by
  unfold tails
  rw [h, Function.update_apply]
  split
  · rfl
  · rfl

theorem tails_of_update {c c' : ContextMcast} {sid : Nat} {q q' : McastSendQueue}
    (h : c'.packetManager.mcastSendQueue = Function.update c.packetManager.mcastSendQueue sid (some q'))
    (hq : c.packetManager.mcastSendQueue sid = some q) (ht : q'.tailList = q.tailList) (k : Nat) :
    tails c' k = tails c k := by
  rw [tails_update h]
  split
  · rename_i hk
    rw [hk, ht, tails, hq]
    rfl
  · rfl

/-- The queue of a group has a tail for every peer the group lists, and it is where the peer's own ACKs
have moved it. -/
structure Attributed (c0 : ContextMcast) (es : List (Event × Origin)) (c : ContextMcast) : Prop where
  numLt : ∀ id n, c.packetManager.mcastReplicaNum id = some n → id < c.controller.nextNodeId
  numbered : ∀ sid ts, tails c sid = some ts → c.packetManager.mcastReplicaNum (sid / 256) = some ts.length
  listed : ∀ addr g, c.controller.multicastContextMap.lookup addr = some g →
    g.replicas.length ≤ (c.packetManager.mcastReplicaNum g.groupId).getD 0
  acked : ∀ addr g (ts : List Nat) (i : Nat) peer t, c.controller.multicastContextMap.lookup addr = some g →
    tails c (g.groupId * 256) = some ts → g.replicas[i]? = some peer → ts[i]? = some t →
    ∀ k < t, Acked c0 es (g.groupId * 256) peer k

namespace Attributed

variable {c0 c c' : ContextMcast} {es : List (Event × Origin)}

theorem snoc (h : Attributed c0 es c) (x : Event × Origin) : Attributed c0 (es ++ [x]) c :=
  ⟨h.numLt, h.numbered, h.listed, fun addr g ts i peer t hg hts hi ht k hk =>
    (h.acked addr g ts i peer t hg hts hi ht k hk).snoc x⟩

/-- Numbers and tails stay, and a group is an old one or lists nobody yet. -/
theorem same (h : Attributed c0 es c) (hnext : c.controller.nextNodeId ≤ c'.controller.nextNodeId)
    (hgroups : ∀ addr g, c'.controller.multicastContextMap.lookup addr = some g →
      c.controller.multicastContextMap.lookup addr = some g ∨ g.replicas = [])
    (hnum : c'.packetManager.mcastReplicaNum = c.packetManager.mcastReplicaNum)
    (htails : ∀ sid, tails c' sid = tails c sid) : Attributed c0 es c' := by
  refine ⟨fun id n hn => ?_, fun sid ts hts => ?_, fun addr g hg => ?_, fun addr g ts i peer t hg hts hi ht k hk => ?_⟩
  · rw [hnum] at hn
    exact lt_of_lt_of_le (h.numLt id n hn) hnext
  · rw [hnum]
    exact h.numbered sid ts (htails sid ▸ hts)
  · rw [hnum]
    rcases hgroups addr g hg with hg | hg
    · exact h.listed addr g hg
    · rw [hg]; exact Nat.zero_le _
  · rcases hgroups addr g hg with hg | hg
    · exact h.acked addr g ts i peer t hg (htails _ ▸ hts) hi ht k hk
    · rw [hg] at hi; cases hi

/-- An event that leaves the controller alone too. -/
theorem quiet (h : Attributed c0 es c) (hctrl : c'.controller = c.controller)
    (hnum : c'.packetManager.mcastReplicaNum = c.packetManager.mcastReplicaNum)
    (htails : ∀ sid, tails c' sid = tails c sid) : Attributed c0 es c' :=
  h.same (by rw [hctrl]) (fun addr g hg => .inl (hctrl ▸ hg)) hnum htails

theorem join (h : Attributed c0 es c) {addr : String} {constructed : Bool}
    (hctrl : c'.controller = (c.controller.joinMulticast addr constructed).2)
    (hnum : c'.packetManager.mcastReplicaNum = c.packetManager.mcastReplicaNum)
    (htails : ∀ sid, tails c' sid = tails c sid) : Attributed c0 es c' := by
  obtain ⟨-, he⟩ | ⟨-, -, he⟩ | ⟨-, -, he⟩ := c.controller.joinMulticast_cases addr constructed
  · exact h.quiet (by rw [hctrl, he]) hnum htails
  · refine h.same (by rw [hctrl, he]; exact Nat.le_succ _) (fun a g hg => .inl ?_) hnum htails
    rw [hctrl, he] at hg; exact hg
  · refine h.same (by rw [hctrl, he]; exact Nat.le_succ _) (fun a g hg => ?_) hnum htails
    rw [hctrl, he] at hg
    rcases Controller.lookup_joined hg with ⟨-, rfl⟩ | ⟨-, hg⟩
    · exact .inr rfl
    · exact .inl hg

theorem leave (h : Attributed c0 es c) {addr : String} (hctrl : c'.controller = (c.controller.leaveMulticast addr).2)
    (hnum : c'.packetManager.mcastReplicaNum = c.packetManager.mcastReplicaNum)
    (htails : ∀ sid, tails c' sid = tails c sid) : Attributed c0 es c' := by
  unfold Controller.leaveMulticast at hctrl
  split at hctrl
  · refine h.same (by rw [hctrl]) (fun a g hg => .inl ?_) hnum htails
    rw [hctrl] at hg
    exact (Controller.lookup_erase_some hg).2
  · exact h.quiet hctrl hnum htails

theorem tailsOf_of_tails (h : Attributed c0 es c) {id : Nat} {ts : List Nat} (ht : tails c (id * 256) = some ts) :
    tailsOf c id = some ts := by
  have hn := h.numbered _ ts ht
  rw [Nat.mul_div_cancel _ (by decide)] at hn
  unfold tailsOf
  rw [hn, ht]
  rfl

theorem tailsOf_length (h : Attributed c0 es c) {id n : Nat} (hn : c.packetManager.mcastReplicaNum id = some n) :
    ∃ ts, tailsOf c id = some ts ∧ ts.length = n := by
  cases ht : tails c (id * 256) with
  | none => exact ⟨List.replicate n 0, by unfold tailsOf; rw [hn, ht]; rfl, List.length_replicate⟩
  | some ts =>
    have hlen := h.numbered _ ts ht
    rw [Nat.mul_div_cancel _ (by decide), hn] at hlen
    exact ⟨ts, h.tailsOf_of_tails ht, (Option.some.inj hlen).symm⟩

/-- A list that fits takes the place of the old one, whether or not its length is stored. -/
theorem setReplicas (h : Attributed c0 es c) (hgr : c.controller.Grouped) {addr : String} {g : RdmaMulticastContext}
    {peers : List String} (hg : c.controller.multicastContextMap.lookup addr = some g)
    (hfit : listFits c g peers = true) (hctrl : c'.controller = c.controller.setReplicas addr g peers)
    (hmgr : c'.packetManager = (c.packetManager.setMulticastReplicaNum g.groupId peers.length).2) :
    Attributed c0 es c' := by
  have hlook : ∀ a x, c'.controller.multicastContextMap.lookup a = some x →
      (a = addr ∧ x = { g with replicas := peers }) ∨
        (a ≠ addr ∧ c.controller.multicastContextMap.lookup a = some x) := by
    intro a x hx
    rw [hctrl] at hx
    exact Controller.lookup_joined hx
  obtain ⟨hqueue, hnum⟩ := c.packetManager.setMulticastReplicaNum_cases g.groupId peers.length
  rw [← hmgr] at hqueue hnum
  have htails : ∀ sid, tails c' sid = tails c sid := fun sid => by unfold tails; rw [hqueue]
  refine ⟨fun id n hn => ?_, fun sid ts ht => ?_, fun a x hx => ?_, fun a x ts i peer t hx ht hi hti k hk => ?_⟩
  · have hnext : c'.controller.nextNodeId = c.controller.nextNodeId := by rw [hctrl]; rfl
    rw [hnext]
    rcases hnum id with ⟨rfl, -, -⟩ | he
    · exact hgr.lt addr g hg
    · exact h.numLt id n (he ▸ hn)
  · rw [htails] at ht
    have hn := h.numbered sid ts ht
    rcases hnum (sid / 256) with ⟨-, hnone, -⟩ | he
    · rw [hnone] at hn; cases hn
    · rw [he]; exact hn
  · rcases hlook a x hx with ⟨-, rfl⟩ | ⟨hne, hx⟩
    · show peers.length ≤ (c'.packetManager.mcastReplicaNum g.groupId).getD 0
      cases hn : c.packetManager.mcastReplicaNum g.groupId with
      | none => rw [hmgr, PacketManager.setMulticastReplicaNum, hn]; simp
      | some n =>
        obtain ⟨ts, hts, hlen⟩ := h.tailsOf_length hn
        rcases hnum g.groupId with ⟨-, hnone, -⟩ | he
        · rw [hn] at hnone; cases hnone
        · rw [he, hn, Option.getD_some, ← hlen]
          exact (listFits_some hfit hts).1
    · rcases hnum x.groupId with ⟨he, -, -⟩ | he
      · exact absurd (hgr.unique a addr x g hx hg he) hne
      · rw [he]; exact h.listed a x hx
  · rw [htails] at ht
    rcases hlook a x hx with ⟨rfl, rfl⟩ | ⟨-, hx⟩
    · have hlt : i < peers.length := (List.getElem?_eq_some_iff.1 hi).1
      rcases (listFits_some hfit (h.tailsOf_of_tails ht)).2 i hlt with he | he
      · exact h.acked a g ts i peer t hg ht (he ▸ hi) hti k hk
      · rw [he] at hti; cases hti; exact absurd hk (Nat.not_lt_zero k)
    · exact h.acked a x ts i peer t hx ht hi hti k hk

/-- A session is opened: a queue that is made has the number its group has, and zero tails. -/
theorem opened (h : Attributed c0 es c) {sid : Nat} {ret : Int} {core : Core}
    (hsid : sid / 256 < c.controller.nextNodeId) (ho : c.openSession sid = some (ret, core)) :
    Attributed c0 es { c with toCore := core } := by
  obtain ⟨hctrl, -⟩ := openSession_frame ho
  have hsame : ∀ x : ContextMcast, x.toCore = core →
      core.packetManager.mcastSendQueue = c.packetManager.mcastSendQueue →
      core.packetManager.mcastReplicaNum = c.packetManager.mcastReplicaNum → Attributed c0 es x := by
    rintro x rfl hq hn
    exact h.quiet hctrl hn fun k => by unfold tails; rw [hq]
  obtain he | ⟨pool, hs⟩ := openSession_manager ho
  · exact hsame _ rfl (by rw [he]) (by rw [he])
  · obtain ⟨hq, hn⟩ | ⟨hnone, q, hq, hqueue, hnum⟩ := hs.mcast
    · exact hsame _ rfl hq hn
    · obtain ⟨r, -, rfl⟩ := Option.map_eq_some_iff.1 hq
      have htails := tails_update (c := c) (d := { c with toCore := core }) hqueue
      have hget : ∀ id, (core.packetManager.mcastReplicaNum id).getD 0 =
          (c.packetManager.mcastReplicaNum id).getD 0 := by
        intro id
        rw [hnum]
        by_cases hid : id = sid / 256
        · subst hid; simp
        · simp [Function.update_of_ne hid]
      refine ⟨fun id n hn => ?_, fun k ts ht => ?_, fun a g hg => ?_, fun a g ts i peer t hg ht hi hti k hk => ?_⟩
      · have hn : core.packetManager.mcastReplicaNum id = some n := hn
        show id < core.controller.nextNodeId
        rw [hctrl]
        by_cases hid : id = sid / 256
        · rw [hid]; exact hsid
        · rw [hnum, Function.update_of_ne hid] at hn
          exact h.numLt id n hn
      · show core.packetManager.mcastReplicaNum (k / 256) = some ts.length
        rw [htails] at ht
        rw [hnum]
        split at ht
        · rename_i hk; cases ht; rw [hk]; simp
        · have hn := h.numbered k ts ht
          by_cases hid : k / 256 = sid / 256
          · rw [hid] at hn ⊢; simp [hn]
          · rw [Function.update_of_ne hid]; exact hn
      · show g.replicas.length ≤ (core.packetManager.mcastReplicaNum g.groupId).getD 0
        rw [hget]
        exact h.listed a g (hctrl ▸ hg)
      · rw [htails] at ht
        split at ht
        · cases ht
          rw [List.eq_of_mem_replicate (List.mem_of_getElem? hti)] at hk
          exact absurd hk (Nat.not_lt_zero k)
        · exact h.acked a g ts i peer t (hctrl ▸ hg) ht hi hti k hk

/-- The ACK of a registered source: where a group lists its sender, it is counted for the group whose data it
acknowledges, at the sender's position. -/
theorem registered_position (hgr : c.controller.Grouped) {a : Arrival} {addr : Option String} {o : Origin} {p : Packet}
    {sid : Nat} (hfit : ackFits c a addr o = true) (hp : a.packet = some p) (hcmd : p.cmd ≠ pktCmdData)
    (hs : c.controller.findSessionOfAddress a.gid a.srcQp p.session = some (some sid)) {x : String}
    {g : RdmaMulticastContext} (hg : c.controller.multicastContextMap.lookup x = some g)
    (hsess : (c.controller.redirectMulticast sid).1 = g.groupId * 256) :
    g.replicas[(c.controller.redirectMulticast sid).2]? = some o.peer ∧
      c.controller.getMulticastContext o.group = some g := by
  unfold ackFits at hfit
  simp only [hp, hs, hcmd, decide_false, Bool.false_or, Option.all_some, Option.join_some, Bool.and_eq_true,
    Bool.or_eq_true, List.all_eq_true, decide_eq_true_eq] at hfit
  obtain ⟨hname, hlist⟩ := hfit
  obtain hstay | ⟨y, g', hg', hre, hi⟩ := c.controller.redirectMulticast_cases sid
  · -- a registered node has another id than the group
    rw [hsess] at hstay
    obtain ⟨b, id, hb, rfl⟩ := Controller.findSessionOfAddress_some hs
    have := (deserialize_bounds hp).1
    exact absurd (by omega) (hgr.node b id x g hb hg)
  · obtain rfl := hgr.unique y x g' g hg' hg (by omega)
    obtain rfl := Option.some.inj (hg.symm.trans hg')
    rw [hname, Option.getD_some] at hi
    refine ⟨hi, ?_⟩
    have hmem := List.mem_of_getElem? hi
    obtain hnone | ⟨hgroup, hfirst⟩ := hlist
    · exact absurd hmem (hnone g (Controller.mem_groups.2 ⟨y, hg⟩))
    · -- both groups come first among those that list the peer
      obtain ⟨go, hgo, hpeer⟩ := (Option.any_eq_true _ _).1 hgroup
      obtain ⟨b, h, hb, hlists, hleast, heq⟩ := Controller.redirectMulticast_first hgo (of_decide_eq_true hpeer) hname
      have hid : h.groupId = g.groupId := by
        rw [heq] at hsess
        simp only at hsess
        omega
      obtain rfl := hgr.unique b y h g hb hg hid
      obtain rfl : b = o.group :=
        String.le_antisymm (hleast o.group go hgo (of_decide_eq_true hpeer)) (hfirst b g hg hmem)
      exact hg

/-- The position an ACK is counted at is the sender's in the group it is for, or past the list. -/
theorem ack_position (hgr : c.controller.Grouped) {a : Arrival} {addr : Option String} {o : Origin} {p : Packet}
    {sid : Nat} (hfit : ackFits c a addr o = true) (hp : a.packet = some p) (hcmd : p.cmd ≠ pktCmdData)
    (hsid : sessionOf c.toCore a addr p.session = some (some sid)) {x : String} {g : RdmaMulticastContext}
    (hg : c.controller.multicastContextMap.lookup x = some g)
    (hsess : (c.controller.redirectMulticast sid).1 = g.groupId * 256) :
    (g.replicas[(c.controller.redirectMulticast sid).2]? = some o.peer ∧
        c.controller.getMulticastContext o.group = some g) ∨
      g.replicas.length ≤ (c.controller.redirectMulticast sid).2 := by
  obtain ⟨s, hs, hx⟩ := Option.map_eq_some_iff.1 hsid
  cases s with
  | some node =>
    cases hx
    exact .inl (registered_position hgr hfit hp hcmd hs hg hsess)
  | none =>
    right
    unfold ackFits at hfit
    simp only [hp, hs, hx, hcmd, decide_false, Bool.false_or, Option.all_some, Option.join_some, List.all_eq_true,
      decide_eq_true_eq] at hfit
    exact hfit g (Controller.mem_groups.2 ⟨x, hg⟩)

/-- An ACK moves the sender's tail. -/
theorem ack (h : Attributed c0 es c) (hgr : c.controller.Grouped)
    (hshort : Queues McastSendQueue.Short c.packetManager.mcastSendQueue) (hsend : Sendable c)
    (hrun : Runs.Run step ok c0 (es.map Prod.fst) c) {ts : Nat} {a : Arrival} {addr : Option String} {o : Origin}
    {p : Packet} {sid : Nat} {core : Core} (hfit : ackFits c a addr o = true) (hp : a.packet = some p)
    (hcmd : p.cmd ≠ pktCmdData) (hsid : sessionOf c.toCore a addr p.session = some (some sid))
    {ptr : Nat} {x : SessionInfo} {q : McastSendQueue}
    (hx : c.activeSessionMap.lookup (c.controller.redirectMulticast sid).1 = some x)
    (hptr : x.mcastSendQueue = some ptr) (hq : c.packetManager.mcastSendQueue ptr = some q)
    (hr : receiveAck c.toCore ts (c.controller.redirectMulticast sid).1 ptr x q
      (c.controller.redirectMulticast sid).2 p =
      some core) : Attributed c0 (es ++ [(.arrive ts a addr, o)]) { c with toCore := core } := by
  obtain rfl := hsend.ptr _ x ptr hx hptr
  have hof : ackOf (.arrive ts a addr) = some p := by
    simp only [ackOf, hp, Option.filter_some, hcmd, ne_eq, not_false_eq_true, decide_true, if_true]
  have hpos : ∀ x g, c.controller.multicastContextMap.lookup x = some g →
      (c.controller.redirectMulticast sid).1 = g.groupId * 256 → _ :=
    fun x g => ack_position (x := x) (g := g) hgr hfit hp hcmd hsid
  generalize (c.controller.redirectMulticast sid).1 = sid' at *
  generalize (c.controller.redirectMulticast sid).2 = index at *
  have hcore : core.controller = c.controller ∧ core.packetManager.mcastReplicaNum = c.packetManager.mcastReplicaNum ∧
      ∃ q', core.packetManager.mcastSendQueue = Function.update c.packetManager.mcastSendQueue sid' (some q') ∧
        q'.tailList = (q.markCompleted index p.sn c.packetManager.pool).2.1.tailList := by
    obtain ⟨cwnd, incr, srtt, rttval, rfl⟩ := receiveAck_some hr
    exact ⟨rfl, rfl, _, rfl, rfl⟩
  obtain ⟨hctrl, hnum, q', hqueue, hlist⟩ := hcore
  have htails := tails_update (c := c) (d := { c with toCore := core }) hqueue
  rw [hlist] at htails
  have hold : tails c sid' = some q.tailList := by unfold tails; rw [hq]; rfl
  refine ⟨fun id n hn => ?_, fun k ts ht => ?_, fun a g hg => ?_, fun a g ts i peer t hg ht hi hti k hk => ?_⟩
  · show id < core.controller.nextNodeId
    rw [hctrl]
    exact h.numLt id n (hnum ▸ hn)
  · show core.packetManager.mcastReplicaNum (k / 256) = some ts.length
    rw [htails] at ht
    rw [hnum]
    split at ht
    · rename_i hk
      cases ht
      rw [hk, McastSendQueue.length_markCompleted]
      exact h.numbered sid' _ hold
    · exact h.numbered k ts ht
  · show g.replicas.length ≤ (core.packetManager.mcastReplicaNum g.groupId).getD 0
    rw [hnum]
    exact h.listed a g (hctrl ▸ hg)
  · have hg : c.controller.multicastContextMap.lookup a = some g := hctrl ▸ hg
    rw [htails] at ht
    split at ht
    · rename_i hsame
      cases ht
      rcases (hshort sid' q hq).markCompleted_tail hti with hti | ⟨rfl, rfl, hle⟩
      · exact (h.acked a g _ i peer t hg (hsame ▸ hold) hi hti k hk).snoc _
      · rcases hpos a g hg hsame.symm with ⟨hi', hgroup⟩ | hlen
        · rw [hi] at hi'
          exact ⟨es, _, [], c, g, q, p, rfl, hrun, hof, (Option.some.inj hi').symm, hgroup, rfl, hsame ▸ hq, hk, hle⟩
        · exact absurd (List.getElem?_eq_some_iff.1 hi).1 (not_lt.2 hlen)
    · exact (h.acked a g ts i peer t hg ht hi hti k hk).snoc _

theorem step (h : Attributed c0 es c) (hgr : c.controller.Grouped)
    (hshort : Queues McastSendQueue.Short c.packetManager.mcastSendQueue) (hsend : Sendable c)
    (hrun : Runs.Run ContextMcast.step ok c0 (es.map Prod.fst) c) {e : Event} {o : Origin}
    (hcov : covers c (e, o) = true) (hs : ContextMcast.step c e = some c') : Attributed c0 (es ++ [(e, o)]) c' := by
  have h' := h.snoc (e, o)
  -- the number of a session that is opened is one of a node or group
  have hsid : ∀ {p sid}, c.controller.findSession p 0 = some sid → sid / 256 < c.controller.nextNodeId := by
    intro p sid hf
    obtain ⟨id, hid, rfl⟩ := Option.map_eq_some_iff.1 hf
    have := hgr.wf.name p id hid
    omega
  have hopens : ∀ {sid}, opens c e = some sid → sid / 256 < c.controller.nextNodeId := by
    intro sid ho
    obtain ⟨p, hf⟩ := opens_some ho
    exact hsid hf
  cases effect hs with
  | ignored => exact h'
  | registered => exact h'.same (Nat.le_succ _) (fun addr x hx => .inl hx) rfl fun _ => rfl
  | joined => exact h'.join rfl rfl fun _ => rfl
  | left => exact h'.leave rfl rfl fun _ => rfl
  | @replicasSet addr peers g hg =>
    have hfit : (c.controller.getMulticastContext addr).all (fun g => listFits c g peers) = true := hcov
    rw [hg] at hfit
    exact h'.setReplicas hgr hg hfit rfl rfl
  | refused hop ho => exact h'.opened (hopens hop) ho
  | @sendPushed p bufs _ sid ptr _ _ _ _ q _ _ _ hg hf ho _ _ hq hpush hpu =>
    have h1 := h'.opened (hsid hf) ho
    refine h1.quiet hpu.controller (by simp only [hpu.packetManager]; rfl) ?_
    exact tails_of_update (by rw [hpu.packetManager]; rfl) hq (McastSendQueue.push_tailList hpush)
  | receivePushed _ hf ho _ _ _ _ hpu =>
    have h1 := h'.opened (hsid hf) ho
    exact h1.quiet hpu.controller (by simp only [hpu.packetManager]; rfl)
      fun _ => by simp only [tails, hpu.packetManager]; rfl
  | acksSent hx =>
    obtain ⟨-, st, m, rfl⟩ := sendAcks_frame hx
    exact h'.quiet rfl rfl fun _ => rfl
  | @dataSent ts order draw _ _ _ hx =>
    refine sendDataPackets_rule (P := fun x => Attributed c0 (es ++ [(.sendData ts order draw, o)]) x)
      (fun x sid x' r hP hs => ?_) h' hx
    obtain ⟨rfl, -⟩ | ⟨e, ptr, q, q', depth, -, -, hq, ht, -, rfl⟩ := sendSession_some hs
    · exact hP
    · exact hP.quiet rfl rfl (tails_of_update rfl hq ht)
  | dataArrived _ _ _ _ _ hd =>
    obtain ⟨q', mv, mem, -, rfl⟩ := receiveData_some hd
    exact h'.quiet rfl rfl fun _ => rfl
  | ackArrived hp hcmd hses hx hptr hq hr => exact h.ack hgr hshort hsend hrun hcov hp hcmd hses hx hptr hq hr
  | @completed r =>
    obtain ⟨-, st, m, he⟩ := completeSend_frame c.toCore r
    exact h'.quiet (by simp only [he]) (by simp only [he]) fun _ => by simp only [tails, he]
  | _ => exact h'.quiet rfl rfl fun _ => rfl

end Attributed

end RapidTransfer.ContextMcast
