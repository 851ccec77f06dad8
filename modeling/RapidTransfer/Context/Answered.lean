/-
When the multicast context answers the DATA packets it receives. A packet that is counted leaves its session
owing an ACK; the next call of `sendAckPackets` that finds no ACK of the session under way posts one, with the
number the receive queue has come to. `duplicate_answered_iff` says which packets are counted, and that what is
owed is posted some time as long as every ACK that is attempted can be posted.
-/
import RapidTransfer.Lib.Fair
import RapidTransfer.Context.Inflight

namespace RapidTransfer

namespace Core

/-- Packets of the session have arrived that no ACK counts. -/
def Owes (c : Core) (sid : Nat) : Prop :=
  ∃ e, c.activeSessionMap.lookup sid = some e ∧ e.ackPackets < e.recvPackets

/-- Between the two states an ACK of the session is posted. It carries the tail of the session's receive
queue and counts every packet that has arrived. -/
structure AckPosted (c c' : Core) (sid : Nat) : Prop where
  before : c.ackRequests sid = 0
  after : c'.ackRequests sid = 1
  header : ∃ e q, c'.activeSessionMap.lookup sid = some e ∧
    e.receiveQueue.bind c'.packetManager.receiveQueue = some q ∧ e.ackHandle.cmd = pktCmdAck ∧
    e.ackHandle.session = sid % 256 ∧ e.ackHandle.sn = q.getAckSN ∧ e.ackPackets = e.recvPackets

/-! ## Packets are counted -/

/-- An ACK never counts more packets than arrived. -/
def Counted (c : Core) : Prop := ∀ sid e, c.activeSessionMap.lookup sid = some e → e.ackPackets ≤ e.recvPackets

theorem counted_rule (wnd : ReceiveQueue → Nat) (one : Bool) :
    AckRule wnd one (fun _ _ => True) (fun _ _ _ => true) Counted where
  quiet h hq sid e' he' := by
    obtain ⟨e, he, hs⟩ := hq.back he'
    rw [hs.ackPackets]
    exact (h sid e he).trans hs.recvPackets
  opened {c c' sid ret} h _ ho := by
    obtain ⟨x, -, -, rfl⟩ | ⟨-, -, -, rfl⟩ | ⟨slot, pool, mgr, -, -, -, -, rfl⟩ := openSession_cases ho
    · exact h
    all_goals
      intro k e he
      rw [lookup_setSession] at he
      split at he
      · cases he; exact le_refl 0
      · exact h k e he
  post {c c' sid e q p ret} h he _ _ _ hp := by
    obtain ⟨st, n, rfl, hn⟩ := postAck_some hp
    intro k x hx
    rw [lookup_setSession] at hx
    split at hx
    · cases hx
      obtain ⟨-, rfl⟩ | ⟨-, rfl⟩ := hn
      · exact h sid e he
      · exact le_refl _
    · exact h k x hx
  complete {c r} h _ := by
    obtain hc | ⟨sid, e, -, he, -, hc⟩ := completeSend_cases c r
    · rw [hc]; exact h
    · rw [hc]
      intro k x hx
      rw [lookup_setSession] at hx
      split at hx
      · cases hx; exact h sid e he
      · exact h k x hx

/-! ## What is owed is posted -/

/-- The session's entry, its ACK requests and the packet manager are as they were. -/
structure SameSession (c c' : Core) (sid : Nat) : Prop where
  entry : c'.activeSessionMap.lookup sid = c.activeSessionMap.lookup sid
  requests : c'.ackRequests sid = c.ackRequests sid
  packetManager : c'.packetManager = c.packetManager

theorem SameSession.trans {c c1 c' : Core} {sid : Nat} (h : SameSession c c1 sid) (h' : SameSession c1 c' sid) :
    SameSession c c' sid :=
  ⟨h'.entry.trans h.entry, h'.requests.trans h.requests, h'.packetManager.trans h.packetManager⟩

theorem AckPosted.after_same {c c1 c' : Core} {sid : Nat} (h : SameSession c c1 sid) (hp : AckPosted c1 c' sid) :
    AckPosted c c' sid :=
  ⟨h.requests ▸ hp.before, hp.after, hp.header⟩

theorem AckPosted.then_same {c c1 c' : Core} {sid : Nat} (hp : AckPosted c c1 sid) (h : SameSession c1 c' sid) :
    AckPosted c c' sid := by
  refine ⟨hp.before, h.requests.trans hp.after, ?_⟩
  rw [h.entry, h.packetManager]
  exact hp.header

/-- One post: the session has its ACK, the other sessions are left alone. -/
theorem postAck_posts {wnd : ReceiveQueue → Nat} {one : Bool} {c c' : Core} {sid : Nat} {e : SessionInfo}
    {q : ReceiveQueue} {p : Post} {ret : Int} (h : Tracked c) (he : c.activeSessionMap.lookup sid = some e)
    (hq : e.receiveQueue.bind c.packetManager.receiveQueue = some q) (howes : owesAck e = true)
    (hg : canPost c sid p = true) (hp : postAck wnd one c sid e q p = some (ret, c')) :
    ret = 0 ∧ AckPosted c c' sid ∧ ∀ k, k ≠ sid → SameSession c c' k := by
  have hh := h.entries sid e he
  obtain ⟨hbuf, hgrh, hdata⟩ := hh.usable (ne_none_of_queue hq)
  obtain ⟨hret, st, rfl, qp, ho⟩ := postAck_of_canPost hbuf hgrh hdata hg hp
  have hbefore : c.ackRequests sid = 0 := by rw [hh.count, idle_of_owesAck howes]; rfl
  refine ⟨hret, ⟨hbefore, ?_, _, q, (lookup_setSession ..).trans (if_pos rfl), hq, rfl, rfl, rfl, rfl⟩,
    fun k hk => ⟨?_, ?_, rfl⟩⟩
  · refine (ackRequests_posted ho sid).trans ?_
    rw [hbefore, if_pos rfl]
  · rw [lookup_setSession, if_neg hk]
  · refine (ackRequests_posted ho k).trans ?_
    rw [if_neg hk, Nat.add_zero]

/-- The rounds of `sendAckPackets` when every ACK it attempts can be posted: a session that owes one gets
it, and any other session is left alone. -/
theorem sendAcks_posts {wnd : ReceiveQueue → Nat} {one : Bool} (sid : Nat) :
    ∀ {order : List (Nat × Post)} {c c' : Core} {ret : Int} {e : SessionInfo}, Tracked c → (order.map (·.1)).Nodup →
      acksAll wnd one canPost order c = true → sendAcks wnd one order c = some (ret, c') →
      c.activeSessionMap.lookup sid = some e →
      (sid ∈ order.map (·.1) ∧ owesAck e = true → AckPosted c c' sid) ∧
      (¬(sid ∈ order.map (·.1) ∧ owesAck e = true) → SameSession c c' sid)
  | [], c, c', ret, e, _, _, _, h, _ => by
    cases h
    constructor
    · rintro ⟨hm, -⟩; cases hm
    · exact fun _ => ⟨rfl, rfl, rfl⟩
  | (k, p) :: rest, c, c', ret, e, ht, hnd, hall, h, he => by
    rw [List.map_cons, List.nodup_cons] at hnd
    unfold sendAcks at h
    unfold acksAll at hall
    split at h
    · cases h
    rename_i x hx
    rw [hx] at hall
    simp only at hall
    split at h
    · cases h
    rename_i q hq
    rw [hq] at hall
    simp only at hall
    split at h
    · rename_i how
      rw [if_pos how, Bool.and_eq_true] at hall
      split at h
      · cases h
      rename_i r c1 hp
      obtain ⟨rfl, hposted, hothers⟩ := postAck_posts ht hx hq how hall.1 hp
      have ht1 := ht.post hx hq how hall.1 hp
      have hrest := hall.2
      rw [hp] at hrest
      simp only [ne_eq, not_true_eq_false, if_false] at hrest h
      by_cases hk : sid = k
      · -- posted in this round, and not visited again
        subst hk
        rw [hx] at he; cases he
        obtain ⟨e1, -, he1, -⟩ := hposted.header
        have hsame := (sendAcks_posts sid ht1 hnd.2 hrest h he1).2 fun hin => hnd.1 hin.1
        exact ⟨fun _ => hposted.then_same hsame, fun hn => absurd ⟨List.mem_cons_self, how⟩ hn⟩
      · have hsame := hothers sid hk
        obtain ⟨h1, h2⟩ := sendAcks_posts sid ht1 hnd.2 hrest h (hsame.entry.trans he)
        refine ⟨fun hin => .after_same hsame (h1 ⟨?_, hin.2⟩), fun hn => hsame.trans (h2 fun hin => hn ⟨?_, hin.2⟩)⟩
        · exact (List.mem_cons.1 hin.1).resolve_left hk
        · exact List.mem_cons_of_mem _ hin.1
    · rename_i how
      rw [if_neg how] at hall
      obtain ⟨h1, h2⟩ := sendAcks_posts sid ht hnd.2 hall h he
      refine ⟨fun hin => h1 ⟨?_, hin.2⟩, fun hn => h2 fun hin => hn ⟨List.mem_cons_of_mem _ hin.1, hin.2⟩⟩
      refine (List.mem_cons.1 hin.1).resolve_left ?_
      rintro rfl
      rw [hx] at he; cases he
      exact how hin.2

theorem ackRequests_completeSend {c : Core} {r : Nat × Request} {sid : Nat} (hr : r ∈ c.endpointStore.outstanding)
    (hctx : r.2.context = some sid) : c.ackRequests sid = (c.completeSend r).ackRequests sid + 1 := by
  have h := ackRequests_complete hr sid
  rw [if_pos hctx] at h
  obtain hc | ⟨k, x, -, -, -, hc⟩ := completeSend_cases c r
  · rw [hc]; exact h
  · rw [hc]; exact h

/-- What no other call pays: the session owes an ACK, and no further request of it is outstanding. -/
structure Waiting (sid n : Nat) (c : Core) : Prop where
  owes : c.Owes sid
  requests : c.ackRequests sid ≤ n

theorem waiting_rule (wnd : ReceiveQueue → Nat) (one : Bool) (sid n : Nat) :
    AckRule wnd one (fun _ _ => True) (fun _ _ _ => false) (Waiting sid n) where
  quiet {c c'} h hq := by
    obtain ⟨e, he, hlt⟩ := h.owes
    obtain ⟨e', he', hs⟩ := hq.old sid e he
    refine ⟨⟨e', he', ?_⟩, ?_⟩
    · rw [hs.ackPackets]
      exact hlt.trans_le hs.recvPackets
    · rw [hq.ackRequests sid]
      exact h.requests
  opened {c c' k ret} h _ ho := by
    obtain ⟨e, he, hlt⟩ := h.owes
    have hne : c.activeSessionMap.lookup k = none → sid ≠ k := by
      rintro hn rfl
      rw [he] at hn
      cases hn
    obtain ⟨x, -, -, rfl⟩ | ⟨hn, -, -, rfl⟩ | ⟨slot, pool, mgr, hn, -, -, -, rfl⟩ := openSession_cases ho
    · exact h
    all_goals exact ⟨⟨e, by rw [lookup_setSession, if_neg (hne hn)]; exact he, hlt⟩, h.requests⟩
  post _ _ _ _ hg _ := by cases hg
  complete {c r} h hr := by
    obtain ⟨e, he, hlt⟩ := h.owes
    have hle : ackRequests { c with endpointStore := c.endpointStore.complete r } sid ≤ n := by
      have := ackRequests_complete hr sid
      have := h.requests
      omega
    obtain hc | ⟨k, x, -, hx, -, hc⟩ := completeSend_cases c r
    · rw [hc]
      exact ⟨⟨e, he, hlt⟩, hle⟩
    · rw [hc]
      refine ⟨?_, hle⟩
      by_cases hk : sid = k
      · subst hk
        rw [hx] at he; cases he
        exact ⟨_, (lookup_setSession ..).trans (if_pos rfl), hlt⟩
      · exact ⟨e, by rw [lookup_setSession, if_neg hk]; exact he, hlt⟩

end Core

/-! ## Runs -/

namespace ContextMcast

open RapidTransfer.Core

theorem counted_step {c c' : ContextMcast} {e : Event} (h : c.toCore.Counted) (hok : ok c e) (hs : step c e = some c') :
    c'.toCore.Counted := by
  refine step_ack (counted_rule _ _) h hok (fun _ _ => trivial) ?_ hs
  cases e with
  | sendAcks order => exact acksAll_true _ _ order c.toCore
  | _ => rfl

theorem counted_of_reachable {cfg : Config} {es : List Event} {c : ContextMcast} (h : Reachable cfg es c) :
    c.toCore.Counted := by
  obtain ⟨c0, h0, hrun⟩ := h
  obtain ⟨core, hcore, rfl⟩ := Option.map_eq_some_iff.1 h0
  refine hrun.invariant (P := fun x => x.toCore.Counted) ?_ fun x e x' hx hok hs => counted_step hx hok hs
  intro sid e he
  rw [construct_activeSessionMap hcore] at he
  simp at he

/-- The event is the arrival of a DATA packet, delivered before or not, for a session with this entry and
this receive queue. -/
structure DataFor (c : ContextMcast) (ev : Event) (sid : Nat) (e : SessionInfo) (q : ReceiveQueue) : Prop where
  arrival : ∃ ts a addr p, ev = .arrive ts a addr ∧ a.packet = some p ∧ p.cmd = pktCmdData ∧
    sessionOf c.toCore a addr p.session = some (some sid)
  entry : c.activeSessionMap.lookup sid = some e
  queue : e.receiveQueue.bind c.packetManager.receiveQueue = some q

/-- `processData` drops the packet uncounted when its queue awaits nothing. -/
theorem DataFor.owes_iff {c c' : ContextMcast} {ev : Event} {sid : Nat} {e : SessionInfo} {q : ReceiveQueue}
    (h : DataFor c ev sid e q) (hc : c.toCore.Counted) (hs : step c ev = some c') :
    c'.toCore.Owes sid ↔ q.head ≠ q.tail ∨ e.ackPackets < e.recvPackets := by
  obtain ⟨⟨ts, a, addr, p, rfl, hp, hcmd, hsid⟩, he, hqueue⟩ := h
  obtain ⟨ptr, hptr, hq⟩ := Option.bind_eq_some_iff.1 hqueue
  have hle := hc sid e he
  obtain ⟨core, hcore, rfl⟩ := Option.map_eq_some_iff.1 hs
  have hd : processData c.toCore sid p = some core := by
    unfold processReceivedPacket at hcore
    rw [hp] at hcore
    simp only [hsid, if_pos hcmd] at hcore
    exact hcore
  obtain ⟨x, ptr', q', hx, hptr', hq', hcase⟩ := processData_some hd
  rw [he] at hx; cases hx
  rw [hptr] at hptr'; cases hptr'
  rw [hq] at hq'; cases hq'
  obtain ⟨hh, rfl⟩ | ⟨hh, hrd⟩ := hcase
  · constructor
    · rintro ⟨e', he', hlt⟩
      rw [he] at he'; cases he'
      exact .inr hlt
    · rintro (hne | hlt)
      · exact absurd hh hne
      · exact ⟨e, he, hlt⟩
  · obtain ⟨q', mv, mem, -, rfl⟩ := receiveData_some hrd
    exact ⟨fun _ => .inl hh, fun _ => ⟨{ e with recvPackets := e.recvPackets + 1 }, by simp, Nat.lt_succ_of_le hle⟩⟩

/-- Every session is opened safely and every ACK that is attempted can be posted. -/
abbrev Safe (c : ContextMcast) (ev : Event) : Prop := ok c ev ∧ AcksSafe c ev

/-- A call of `sendAckPackets` posts what is owed unless an ACK is under way already. -/
theorem posted_of_sendAcks {c c' : ContextMcast} {order : List (Nat × Post)} {sid : Nat} (ht : Tracked c.toCore)
    (hok : Safe c (.sendAcks order)) (hs : step c (.sendAcks order) = some c') (ho : c.toCore.Owes sid) :
    (c.toCore.ackRequests sid = 0 → AckPosted c.toCore c'.toCore sid) ∧
      (c.toCore.ackRequests sid ≠ 0 → SameSession c.toCore c'.toCore sid) := by
  obtain ⟨e, he, hlt⟩ := ho
  have hperm : (order.map (·.1)).Perm c.activeSessionMap.keys := hok.1
  have hmem : sid ∈ order.map (·.1) :=
    hperm.mem_iff.2 (AList.mem_keys.1 (AList.lookup_isSome.1 (by rw [he]; rfl)))
  have hnd : (order.map (·.1)).Nodup := hperm.nodup_iff.2 c.activeSessionMap.nodupKeys
  obtain ⟨⟨ret, c1⟩, hcall, rfl⟩ := Option.map_eq_some_iff.1 hs
  obtain ⟨⟨ret, core⟩, hsend, hc1⟩ := Option.map_eq_some_iff.1 hcall
  cases hc1
  obtain ⟨h1, h2⟩ := sendAcks_posts sid ht hnd hok.2.2 hsend he
  have hcount := (ht.entries sid e he).count
  constructor
  · intro h0
    rw [hcount] at h0
    refine h1 ⟨hmem, ?_⟩
    simp [owesAck, hlt, (Bool.toNat_eq_zero).1 h0]
  · intro hne
    refine h2 fun hin => hne ?_
    rw [hcount, idle_of_owesAck hin.2]
    rfl

/-- What is owed is posted in a call of `sendAckPackets` or stays owed. -/
theorem owes_step {c c' : ContextMcast} {ev : Event} {sid : Nat} (ht : Tracked c.toCore) (hok : Safe c ev)
    (hs : step c ev = some c') (ho : c.toCore.Owes sid) :
    AckPosted c.toCore c'.toCore sid ∨ Waiting sid (c.toCore.ackRequests sid) c'.toCore ∧
      ∀ order, ev = .sendAcks order → c.toCore.ackRequests sid ≠ 0 := by
  by_cases hev : ∃ order, ev = .sendAcks order
  · obtain ⟨order, rfl⟩ := hev
    obtain ⟨h1, h2⟩ := posted_of_sendAcks ht hok hs ho
    by_cases h0 : c.toCore.ackRequests sid = 0
    · exact .inl (h1 h0)
    · obtain ⟨e, he, hlt⟩ := ho
      have hsame := h2 h0
      exact .inr ⟨⟨⟨e, hsame.entry.trans he, hlt⟩, hsame.requests.le⟩, fun _ _ => h0⟩
  · refine .inr ⟨?_, fun order h => absurd ⟨order, h⟩ hev⟩
    refine step_ack (waiting_rule _ _ sid _) ⟨ho, le_rfl⟩ hok.1 (fun _ _ => trivial) ?_ hs
    cases ev with
    | sendAcks order => exact absurd ⟨order, rfl⟩ hev
    | _ => rfl

/-! ## Infinite runs -/

section Behaviours

variable {b : Runs.Behaviour step Safe} {sid : Nat}

/-- What keeps happening: `sendAckPackets` is called, and the session's ACKs that are under way complete and
are polled. -/
structure Served (b : Runs.Behaviour step Safe) (sid : Nat) : Prop where
  acks : ∀ t, ∃ u ≥ t, ∃ order, b.event u = .sendAcks order
  polled : ∀ t, (b.state t).toCore.ackRequests sid ≠ 0 → ∃ u ≥ t, ∃ r, b.event u = .sent r ∧ r.2.context = some sid

theorem tracked_at {cfg : Config} (h0 : start cfg = some (b.state 0)) : ∀ t, Tracked (b.state t).toCore
  | 0 => tracked_start h0
  | t + 1 => tracked_step (tracked_at h0 t) (b.admitted t) (b.next t)

theorem counted_at {cfg : Config} (h0 : start cfg = some (b.state 0)) (t : Nat) : (b.state t).toCore.Counted := by
  induction t with
  | zero => exact counted_of_reachable ⟨_, h0, .nil⟩
  | succ t ih => exact counted_step ih (b.admitted t).1 (b.next t)

/-- Between the states at `t` and `t + 1` an ACK of the session is posted. -/
def PostedAt (b : Runs.Behaviour step Safe) (sid t : Nat) : Prop :=
  AckPosted (b.state t).toCore (b.state (t + 1)).toCore sid

/-- Until an ACK is posted the session owes one, and those under way become no more. -/
theorem waiting_until (hT : ∀ t, Tracked (b.state t).toCore) {t : Nat} (ho : (b.state t).toCore.Owes sid)
    (hn : ∀ v ≥ t, ¬PostedAt b sid v) {u : Nat} (htu : t ≤ u) :
    Waiting sid ((b.state t).toCore.ackRequests sid) (b.state u).toCore := by
  induction u, htu using Nat.le_induction with
  | base => exact ⟨ho, le_rfl⟩
  | succ u htu ih =>
    obtain hp | ⟨hw, -⟩ := owes_step (hT u) (b.admitted u) (b.next u) ih.owes
    · exact absurd hp (hn u htu)
    · exact ⟨hw.owes, hw.requests.trans ih.requests⟩

theorem posted_of_idle (hT : ∀ t, Tracked (b.state t).toCore)
    (hacks : ∀ t, ∃ u ≥ t, ∃ order, b.event u = .sendAcks order)
    {t : Nat} (ho : (b.state t).toCore.Owes sid) (hidle : (b.state t).toCore.ackRequests sid = 0) :
    ∃ u ≥ t, PostedAt b sid u := by
  by_contra hn
  push Not at hn
  obtain ⟨u, hu, order, hev⟩ := hacks t
  have hw := waiting_until hT ho hn hu
  rw [hidle] at hw
  obtain hp | ⟨-, hne⟩ := owes_step (hT u) (b.admitted u) (b.next u) hw.owes
  · exact hn u hu hp
  · exact hne order hev (Nat.le_zero.1 hw.requests)

/-- What is owed is posted some time. -/
theorem eventually_posted (hT : ∀ t, Tracked (b.state t).toCore) (hb : Served b sid) {t : Nat}
    (ho : (b.state t).toCore.Owes sid) : ∃ u ≥ t, PostedAt b sid u := by
  by_cases hidle : (b.state t).toCore.ackRequests sid = 0
  · exact posted_of_idle hT hb.acks ho hidle
  · by_contra hn
    push Not at hn
    -- the ACK under way completes, and only one can be
    obtain ⟨v, hv, r, hev, hctx⟩ := hb.polled t hidle
    have hw := waiting_until hT ho hn (hv.trans v.le_succ)
    have hone : (b.state v).toCore.ackRequests sid ≤ 1 := by
      obtain ⟨e, he, -⟩ := (waiting_until hT ho hn hv).owes
      rw [((hT v).entries sid e he).count]
      exact Bool.toNat_le _
    have hmem : ok (b.state v) (.sent r) := hev ▸ (b.admitted v).1
    have hnext := b.next v
    rw [hev] at hnext
    have hdone : (b.state (v + 1)).toCore.ackRequests sid = 0 := by
      have := ackRequests_completeSend hmem hctx
      rw [← Option.some.inj hnext]
      show ((b.state v).toCore.completeSend r).ackRequests sid = 0
      omega
    obtain ⟨u, hu, hp⟩ := posted_of_idle hT hb.acks hw.owes hdone
    exact hn u (by omega) hp

end Behaviours

/-- A DATA packet, delivered before or not, leaves its session owing an ACK exactly when the receive queue has a
request outstanding or an ACK was owed already. In a run in which every ACK that is attempted can be posted, what
is owed stays owed until an ACK is posted, which the next call of `sendAckPackets` does unless one is under way;
and it is posted some time if that call is made, and completed ACKs are polled, again and again. -/
theorem duplicate_answered_iff (cfg : Config) :
    (∀ (es : List Event) (c c' : ContextMcast) (ev : Event) (sid : Nat) (e : SessionInfo) (q : ReceiveQueue),
      Reachable cfg es c → DataFor c ev sid e q → step c ev = some c' →
      (c'.toCore.Owes sid ↔ q.head ≠ q.tail ∨ e.ackPackets < e.recvPackets)) ∧
    (∀ (es : List Event) (c0 c c' : ContextMcast) (ev : Event) (sid : Nat), start cfg = some c0 →
      Runs.Run step Safe c0 es c → c.toCore.Owes sid → Safe c ev → step c ev = some c' →
      AckPosted c.toCore c'.toCore sid ∨
        c'.toCore.Owes sid ∧ ∀ order, ev = .sendAcks order → c.toCore.ackRequests sid ≠ 0) ∧
    (∀ (b : Runs.Behaviour step Safe) (t sid : Nat) (e : SessionInfo) (q : ReceiveQueue), start cfg = some (b.state 0) →
      Served b sid → DataFor (b.state t) (b.event t) sid e q → q.head ≠ q.tail ∨ e.ackPackets < e.recvPackets →
      ∃ u > t, AckPosted (b.state u).toCore (b.state (u + 1)).toCore sid) := by
  refine ⟨?_, ?_, ?_⟩
  · intro es c c' ev sid e q hr hd hs
    exact hd.owes_iff (counted_of_reachable hr) hs
  · intro es c0 c c' ev sid h0 hrun ho hok hs
    have ht : Tracked c.toCore :=
      hrun.invariant (P := fun x => Tracked x.toCore) (tracked_start h0) fun _ _ _ hx hok hs => tracked_step hx hok hs
    obtain hp | ⟨hw, hne⟩ := owes_step ht hok hs ho
    · exact .inl hp
    · exact .inr ⟨hw.owes, hne⟩
  · intro b t sid e q h0 hb hd howes
    have hc : (b.state t).toCore.Counted := counted_at h0 t
    exact eventually_posted (tracked_at h0) hb ((hd.owes_iff hc (b.next t)).2 howes)

/-- The last receive has completed and its ACK is lost: the retransmission is not counted. -/
theorem last_ack_lost : ∃ c0 c c' q e, start (smallConfig 256) = some c0 ∧ Runs.Run step ok c0 (acknowledged 2) c ∧
    c.packetManager.receiveQueue 0 = some q ∧ 0 < q.tail ∧ step c (.arrive 1 oneFragment none) = some c' ∧
    c'.activeSessionMap.lookup 0 = some e ∧ e.recvPackets = e.ackPackets := by
  obtain ⟨c0, c, h0, hrun, ht⟩ := Runs.exists_run_of_start step ok (start (smallConfig 256)) (acknowledged 2)
    (fun c => ((c.packetManager.receiveQueue 0).any fun q : ReceiveQueue => decide (0 < q.tail)) &&
      (step c (.arrive 1 oneFragment none)).any fun x : ContextMcast =>
        (x.activeSessionMap.lookup 0).any fun e : SessionInfo => decide (e.recvPackets = e.ackPackets))
    (by decide +kernel)
  obtain ⟨ht1, ht2⟩ := Bool.and_eq_true_iff.1 ht
  obtain ⟨q, hq, htail⟩ := (Option.any_eq_true _ _).1 ht1
  obtain ⟨c', hc', hx⟩ := (Option.any_eq_true _ _).1 ht2
  obtain ⟨e, he, heq⟩ := (Option.any_eq_true _ _).1 hx
  exact ⟨c0, c, c', q, e, h0, hrun, hq, of_decide_eq_true htail, hc', he, of_decide_eq_true heq⟩

/-- With a second fragment still awaited the retransmission is counted; its ACK is posted and completes. -/
def answeredAgain : List Event :=
  acknowledged 4 ++ [.arrive 1 oneFragment none, .sendAcks [(0, ⟨0, 1⟩)], .sent (0, ⟨some 0⟩)]

/-- A session that owes nothing is passed over. -/
theorem step_sendAcks_of_paid {c : ContextMcast} {sid : Nat} {p : Post} {e : SessionInfo} {q : ReceiveQueue}
    (he : c.activeSessionMap.lookup sid = some e) (hq : e.receiveQueue.bind c.packetManager.receiveQueue = some q)
    (hpaid : owesAck e = false) : step c (.sendAcks [(sid, p)]) = some c := by
  simp [step, sendAckPackets, sendAcks, he, hq, hpaid]

/-- From then on `sendAckPackets` is called over and over again: the retransmission, event 5, is answered. -/
theorem retransmission_counted : ∃ b : Runs.Behaviour step Safe, start (smallConfig 256) = some (b.state 0) ∧
    b.event 5 = .arrive 1 oneFragment none ∧ ∃ u > 5, AckPosted (b.state u).toCore (b.state (u + 1)).toCore 0 := by
  obtain ⟨c0, c5, h0, hrun5, ht⟩ := Runs.exists_run_of_start step Safe (start (smallConfig 256)) (acknowledged 4)
    (fun c => decide (sessionOf c.toCore oneFragment none 0 = some (some 0)) &&
      (c.activeSessionMap.lookup 0).any fun e : SessionInfo =>
        (e.receiveQueue.bind c.packetManager.receiveQueue).any fun q : ReceiveQueue => decide (q.head ≠ q.tail))
    (by decide +kernel)
  obtain ⟨ht1, ht2⟩ := Bool.and_eq_true_iff.1 ht
  obtain ⟨e, he, ht3⟩ := (Option.any_eq_true _ _).1 ht2
  obtain ⟨q, hq, hne⟩ := (Option.any_eq_true _ _).1 ht3
  obtain ⟨c0', c, h0', hrun, ht⟩ := Runs.exists_run_of_start step Safe (start (smallConfig 256)) answeredAgain
    (fun c => decide (Safe c (.sendAcks [(0, ⟨0, 1⟩)]) ∧ c.toCore.ackRequests 0 = 0) &&
      (c.activeSessionMap.lookup 0).any fun e : SessionInfo => !owesAck e &&
        (e.receiveQueue.bind c.packetManager.receiveQueue).isSome) (by decide +kernel)
  obtain ⟨ht4, ht5⟩ := Bool.and_eq_true_iff.1 ht
  obtain ⟨hsafe, hidle⟩ := of_decide_eq_true ht4
  obtain ⟨x, hx, ht6⟩ := (Option.any_eq_true _ _).1 ht5
  obtain ⟨hpaid, hqx⟩ := Bool.and_eq_true_iff.1 ht6
  obtain ⟨qx, hqx⟩ := Option.isSome_iff_exists.1 hqx
  rw [h0] at h0'; cases h0'
  have hstep := step_sendAcks_of_paid (p := ⟨0, 1⟩) hx hqx (by simpa using hpaid)
  obtain ⟨b, hstates, hevents, hrest⟩ := hrun.extend ⟨fun _ => c, fun _ => _, fun _ => hsafe, fun _ => hstep⟩ rfl
  have hstart : start (smallConfig 256) = some (b.state 0) := by rw [(hstates 0 (Nat.zero_le _)).unique .nil, h0]
  have h5 : b.state 5 = c5 := (hstates 5 (by decide)).unique hrun5
  have hev : b.event 5 = .arrive 1 oneFragment none := hevents 5 _ rfl
  have hserved : Served b 0 := by
    refine ⟨fun t => ⟨8 + t, by omega, _, (hrest t).2⟩, fun t hbusy => ?_⟩
    rcases Nat.lt_or_ge t 8 with hlt | hge
    · exact ⟨7, by omega, _, hevents 7 _ rfl, rfl⟩
    · obtain ⟨k, rfl⟩ := Nat.exists_eq_add_of_le hge
      rw [show b.state (8 + k) = c from (hrest k).1] at hbusy
      exact absurd hidle hbusy
  have hdata : DataFor (b.state 5) (b.event 5) 0 e q := by
    rw [h5, hev]
    exact ⟨⟨1, oneFragment, none, _, rfl, rfl, rfl, of_decide_eq_true ht1⟩, he, hq⟩
  exact ⟨b, hstart, hev,
    (duplicate_answered_iff _).2.2 b 5 0 e q hstart hserved hdata (.inl (of_decide_eq_true hne))⟩

end ContextMcast

end RapidTransfer
