/-
Retransmissions of the unicast context. `sendDataPackets` reacts to a retransmission on a copy of the
session entry, so the map never sees the reaction. Here is the state-side description of what it
retransmits: `RetransmitDue` looks at a state before the call, and `sendDataPackets_resent_iff` shows
that in a reachable state a session retransmits exactly when it is due.
-/
import RapidTransfer.Context.Queues
import RapidTransfer.Queue.Ready

namespace RapidTransfer

/-! ## States that can send -/

namespace Context

open RapidTransfer.Core

theorem sendRule_ready : SendRule (fun _ _ => True) fun q => q.ring.Ready q.tail where
  construct h := by
    obtain ⟨r, hr, rfl⟩ := Option.map_eq_some_iff.1 h
    exact .construct hr
  push {q bufs pool ret sn q' pool'} h _ hp := by
    obtain ⟨ids, sq, -, -, hfill⟩ := SendQueue.push_some hp
    have := (h.pushed sq).fill (q.ring.wndSize + 1) pool
    rw [show q' = _ from congrArg (·.2.1) hfill.symm]
    exact this
  ack {q sn} pool h hsn := (h.ack hsn).fill (q.ring.wndSize + 1) pool
  restamp {q q'} h ht hr := by
    have hent : ∀ k, (q'.ring.handle k).packetBuf = (q.ring.handle k).packetBuf ∧
        (q'.ring.handle k).withGrh = (q.ring.handle k).withGrh := by
      intro k
      obtain ⟨ts, hts⟩ := hr.handle k
      rw [hts]
      exact ⟨rfl, rfl⟩
    have hwnd : q'.ring.wndSize ≤ q.ring.queueCapacity ∧ q'.ring.wndSize < 2 ^ 16 := by
      rcases hr.wndSize with hw | ⟨w, hw⟩
      · rw [hw]; exact ⟨h.wndCap, h.wnd16⟩
      · rw [hw]
        have hmod := Nat.mod_le q.ring.queueCapacity (2 ^ 16)
        simp only [SendRing.setWndSize]
        omega
    refine ⟨fun i hi => ?_, fun k hk => ?_, by rw [hr.queueCapacity]; exact hwnd.1, hwnd.2, ?_, ?_, ?_⟩
    · rw [hr.head] at hi
      unfold SendRing.getMutableEntry
      rw [hr.queueCapacity, (hent _).1]
      exact h.owned i hi
    · rw [(hent k).1] at hk
      rw [(hent k).2]
      exact h.noGrh k hk
    · rw [hr.head, ht]; exact h.tailLe
    · rw [hr.head, hr.queueCapacity, ht]; exact h.lenCap
    · rw [hr.head, ht]; exact h.len16

/-- Every session leads to its own queue and to the name of its peer. -/
structure Sendable (c : Core) : Prop where
  rto : kMinRTO ≤ c.recvRto
  ready : Queues (fun q => q.ring.Ready q.tail) c.packetManager.sendQueue
  wf : c.controller.WF
  named : ∀ id name, c.controller.peerNameRevMap id = some name → name ≠ ""
  ptr : ∀ sid e ptr, c.activeSessionMap.lookup sid = some e → e.sendQueue = some ptr → ptr = sid
  peer : ∀ sid e, c.activeSessionMap.lookup sid = some e → ∃ name, c.controller.peerNameRevMap (sid / 256) = some name

/-- What an event does to the controller and to the timer. -/
theorem step_controller {c c' : Core} {e : Event} (hs : step c e = some c') :
    (c'.controller = c.controller ∨ ∃ p g ext, p ≠ "" ∧ c'.controller = c.controller.registerNode p g ext) ∧
      (c'.recvRto = c.recvRto ∨ kMinRTO ≤ c'.recvRto) := by
  cases effect hs with
  | registered _ hp => exact ⟨.inr ⟨_, _, _, hp, rfl⟩, .inl rfl⟩
  | refused _ ho =>
    obtain ⟨h1, h2⟩ := openSession_frame ho
    exact ⟨.inl h1, .inl h2⟩
  | sendPushed _ ho _ _ _ _ hpu =>
    obtain ⟨h1, h2⟩ := openSession_frame ho
    exact ⟨.inl (hpu.controller.trans h1), .inl (hpu.recvRto.trans h2)⟩
  | receivePushed _ ho _ _ _ _ hpu =>
    obtain ⟨h1, h2⟩ := openSession_frame ho
    exact ⟨.inl (hpu.controller.trans h1), .inl (hpu.recvRto.trans h2)⟩
  | acksSent h =>
    obtain ⟨-, st, m, rfl⟩ := sendAcks_frame h
    exact ⟨.inl rfl, .inl rfl⟩
  | dataSent h =>
    obtain ⟨-, h1, h2⟩ := sendDataPackets_frame h
    exact ⟨.inl h1, .inl h2⟩
  | dataArrived _ _ _ _ _ h =>
    obtain ⟨q', mv, mem, -, rfl⟩ := receiveData_some h
    exact ⟨.inl rfl, .inl rfl⟩
  | ackArrived _ _ _ _ _ h =>
    obtain ⟨cwnd, incr, srtt, rttval, rfl⟩ := receiveAck_some h
    exact ⟨.inl rfl, .inr (le_min (le_max_left _ _) (by decide))⟩
  | @completed r =>
    obtain ⟨-, st, m, he⟩ := completeSend_frame c r
    rw [he]
    exact ⟨.inl rfl, .inl rfl⟩
  | _ => exact ⟨.inl rfl, .inl rfl⟩

theorem sendable_start {cfg : Config} {c : Core} (h : start cfg = some c) : Sendable c := by
  obtain ⟨r, -, rfl⟩ := Option.map_eq_some_iff.1 h
  refine ⟨show kMinRTO ≤ kDefaultRTO by decide, .none, Controller.construct_wf _, ?_, ?_, ?_⟩
  · intro id name hn; cases hn
  · intro sid e ptr he; simp at he
  · intro sid e he; simp at he

/-- The peer a call names has its name under the session's node id. -/
theorem peer_of_opens {c : Core} (h : c.controller.WF) {e : Event} {sid : Nat} (ho : opens c e = some sid) :
    ∃ name, c.controller.peerNameRevMap (sid / 256) = some name := by
  have key : ∀ p, c.controller.findSession p 0 = some sid → c.controller.peerNameRevMap (sid / 256) = some p := by
    intro p hf
    obtain ⟨id, hid, rfl⟩ := Option.map_eq_some_iff.1 hf
    rw [show (id * 256 + 0) / 256 = id by omega]
    exact h.rev p id hid
  cases e with
  | send p bufs => exact ⟨p, key p ho⟩
  | receive p bufs => exact ⟨p, key p ho⟩
  | _ => cases ho

theorem Sendable.step {c c' : Core} {e : Event} (h : Sendable c) (hs : Context.step c e = some c') : Sendable c' := by
  obtain ⟨hctrl, hrto⟩ := step_controller hs
  have hwf : c'.controller.WF ∧ (∀ id name, c'.controller.peerNameRevMap id = some name → name ≠ "") ∧
      ∀ id name, c.controller.peerNameRevMap id = some name → c'.controller.peerNameRevMap id = some name := by
    obtain he | ⟨p, g, ext, hp, he⟩ := hctrl
    · rw [he]; exact ⟨h.wf, h.named, fun _ _ hn => hn⟩
    · rw [he]
      refine ⟨Controller.registerNode_wf h.wf p g ext, fun id name hn => ?_, fun id name hn => ?_⟩
      · simp only [Controller.registerNode, Controller.bind_peerNameRevMap] at hn
        split at hn
        · cases hn; exact hp
        · exact h.named id name hn
      · simp only [Controller.registerNode, Controller.bind_peerNameRevMap]
        rw [if_neg (h.wf.revLt id name hn).ne]
        exact hn
  obtain ⟨hwf, hnamed, hrev⟩ := hwf
  have hown : c'.Entries (Own (·.sendQueue)) :=
    entries_step (entryRule_own (fun hk => hk.sendQueue) (fun _ => rfl) fun _ _ _ => rfl)
      (fun sid x hx ptr hp => h.ptr sid x ptr hx hp) hs
  have hpeer : ∀ sid e', c'.activeSessionMap.lookup sid = some e' →
      ∃ name, c.controller.peerNameRevMap (sid / 256) = some name := by
    intro sid e' he'
    cases ho : opens c e with
    | none =>
      obtain ⟨x, hx, -⟩ := (step_kept hs ho).back he'
      exact h.peer sid x hx
    | some k =>
      obtain ⟨ret, c1, hopen, hm⟩ := step_opens hs ho
      rw [hm] at he'
      -- a session that is new is the one the call opens
      have hset : ∀ (d : Core) (x : SessionInfo), d.activeSessionMap = c.activeSessionMap →
          (d.setSession k x).activeSessionMap.lookup sid = some e' →
            ∃ name, c.controller.peerNameRevMap (sid / 256) = some name := by
        intro d x hd hlook
        rw [lookup_setSession, hd] at hlook
        split at hlook
        · rename_i hk
          rw [hk]
          exact peer_of_opens h.wf ho
        · exact h.peer sid e' hlook
      obtain ⟨x, -, -, rfl⟩ | ⟨-, -, -, rfl⟩ | ⟨slot, pool, mgr, -, -, -, -, rfl⟩ := openSession_cases hopen
      · exact h.peer sid e' he'
      · exact hset c _ rfl he'
      · exact hset { c with packetManager := mgr } _ rfl he'
  refine ⟨?_, sendQueues_step sendRule_ready h.ready (fun _ _ _ => trivial) hs, hwf, hnamed,
    fun sid e' ptr he' hp => hown sid e' he' ptr hp, fun sid e' he' => ?_⟩
  · rcases hrto with he | he
    · rw [he]; exact h.rto
    · exact he
  · obtain ⟨name, hname⟩ := hpeer sid e' he'
    exact ⟨name, hrev _ name hname⟩

theorem sendable_of_reachable {cfg : Config} {es : List Event} {c : Core} (h : Reachable cfg es c) : Sendable c := by
  obtain ⟨c0, h0, hrun⟩ := h
  exact hrun.invariant (sendable_start h0) fun x e x' hx _ hs => hx.step hs

/-! ## What is due -/

/-- The session is not paced, and among the indices it may send there is one that was sent before and
is as old as the timeout, with nothing younger below it. -/
def RetransmitDue (c : Core) (currentTs : Nat) (e : SessionInfo) : Prop :=
  c.recvRto * 2 / 3 ≤ sub64 currentTs e.lastSendTs ∧
    ∃ q, e.sendQueue.bind c.packetManager.sendQueue = some q ∧
      ∃ i, q.tail ≤ i ∧ i < min q.ring.head (q.tail + e.cwnd) ∧ (q.ring.getMutableEntry i).ts ≠ 0 ∧
        ∀ j, q.tail ≤ j → j ≤ i → c.recvRto ≤ sub64 currentTs (q.ring.getMutableEntry j).ts

end Context

theorem sub64_self (a : Nat) : sub64 a a = 0 := by unfold sub64; omega

theorem SendRing.setTs_handle_ts (r : SendRing) (index ts k : Nat) : ((r.setTs index ts).handle k).ts =
    if k = index % r.queueCapacity then ts else (r.handle k).ts := by
  unfold SendRing.setTs
  simp only
  split
  · rename_i hk; rw [hk, Ring.set_same]
  · rename_i hk; rw [Ring.set_of_ne _ _ hk]

/-- A slot still has its send time, or was sent in this pass; if it had been sent before, that was
counted. -/
def SendRing.Stamps (r : SendRing) (ts : Nat) (r' : SendRing) (resent : List Nat) : Prop :=
  ∀ k, (r'.handle k).ts = (r.handle k).ts ∨ ((r'.handle k).ts = ts ∧ ((r.handle k).ts ≠ 0 → resent ≠ []))

/-- Sending the packet of an index, which is counted if it was sent before. -/
theorem SendRing.Stamps.send {ts i : Nat} {r r' r'' : SendRing} {resent resent' : List Nat}
    (h : r.Stamps ts r' resent)
    (hts : ∀ k, (r''.handle k).ts = if k = i % r'.queueCapacity then ts else (r'.handle k).ts)
    (hres : resent' = if (r'.getMutableEntry i).ts ≠ 0 then resent ++ [i] else resent) :
    r.Stamps ts r'' resent' := by
  intro k
  rw [hts, hres]
  split
  · rename_i hk
    refine .inr ⟨rfl, fun hne => ?_⟩
    split
    · simp
    · rename_i h0
      rcases h k with he | ⟨-, he⟩
      · rw [← he, hk] at hne; exact absurd hne h0
      · exact he hne
  · rcases h k with he | ⟨he, hn⟩
    · exact .inl he
    · refine .inr ⟨he, fun hne => ?_⟩
      split
      · simp
      · exact hn hne

namespace Context

open RapidTransfer.Core

/-! ## The loop over the packets -/

namespace Sending

abbrev Stamps (ts : Nat) (q : SendQueue) (l : Sending) : Prop := q.ring.Stamps ts l.queue.ring l.resent

variable {c : Core} {q : SendQueue} {l l' : Sending} {ts sid curr : Nat} {draw : Nat → Post} {b : Bool}

theorem touch_resent (l : Sending) (ts curr : Nat) : (l.touch ts curr).resent =
    if (l.queue.ring.getMutableEntry curr).ts ≠ 0 then l.resent ++ [curr] else l.resent := by
  unfold touch
  split
  · rfl
  · rfl

theorem touch_handle (l : Sending) (ts curr k : Nat) : ((l.touch ts curr).queue.ring.handle k).ts =
    if k = curr % l.queue.ring.queueCapacity then ts else (l.queue.ring.handle k).ts := by
  unfold touch
  split
  · exact SendRing.setTs_handle_ts _ curr ts k
  · exact SendRing.setTs_handle_ts _ curr ts k

theorem flush_resent {ep : Endpoint} (h : l.flush ep draw = some l') : l'.resent = l.resent ∧ l'.queue = l.queue := by
  obtain ⟨r, -, rfl⟩ := Option.map_eq_some_iff.1 h
  exact ⟨rfl, rfl⟩

theorem connect_resent (l : Sending) (sid : Nat) :
    (l.connect sid).2.resent = l.resent ∧ (l.connect sid).2.queue = l.queue := by
  unfold connect
  split
  · exact ⟨rfl, rfl⟩
  · exact ⟨rfl, rfl⟩

/-- Of a packet that is sent, the queue and the list of retransmissions see the touch only. -/
theorem sendIndex_touch (h : Context.sendIndex ts draw sid l curr = some (b, l')) :
    l'.resent = (l.touch ts curr).resent ∧ l'.queue = (l.touch ts curr).queue := by
  unfold Context.sendIndex at h
  simp only at h
  have hc := (l.touch ts curr).connect_resent sid
  split at h
  · cases h; exact ⟨rfl, rfl⟩
  · split at h
    · rename_i hl; rw [hl] at hc; cases h; exact hc
    · rename_i hl
      rw [hl] at hc
      split at h
      · obtain ⟨l1, hf, hx⟩ := Option.map_eq_some_iff.1 h
        cases hx
        have := flush_resent hf
        exact ⟨this.1.trans hc.1, this.2.trans hc.2⟩
      · cases h; exact hc

theorem Stamps.sendIndex (hs : Stamps ts q l) (h : Context.sendIndex ts draw sid l curr = some (b, l')) :
    Stamps ts q l' := by
  obtain ⟨hr, hq⟩ := sendIndex_touch h
  exact SendRing.Stamps.send hs (fun k => by rw [hq]; exact touch_handle l ts curr k)
    (hr.trans (touch_resent l ts curr))

/-- Nothing goes wrong with a packet below `head_` of a session that leads to its peer. -/
theorem sendIndex_true (hsound : Sound c q l) (hready : q.ring.Ready q.tail) {name : String} (hname : name ≠ "")
    (hrev : c.controller.peerNameRevMap (sid / 256) = some name) (hcurr : curr < q.ring.head)
    (h : Context.sendIndex ts draw sid l curr = some (b, l')) : b = true := by
  have ht := hsound.touch ts curr
  have hser : ((l.touch ts curr).queue.ring.getMutableEntry curr).serialize.isSome = true := by
    obtain ⟨t, hh⟩ := ht.ring.handle (curr % q.ring.queueCapacity)
    have hb := hready.owned curr hcurr
    unfold SendRing.getMutableEntry
    rw [PacketHandle.serialize_isSome, ht.ring.queueCapacity, hh]
    simp only [Bool.and_eq_true, Bool.not_eq_true']
    exact ⟨hb, hready.noGrh _ hb⟩
  obtain ⟨s, hs⟩ := Option.isSome_iff_exists.1 hser
  have hcon : ∃ ep m, (l.touch ts curr).connect sid = (some ep, m) := by
    unfold Sending.connect
    split
    · rename_i ep _; exact ⟨ep, _, rfl⟩
    · unfold Core.getOrCreateEndpoint
      rw [ht.core]
      simp only [hrev]
      obtain ⟨hn, -⟩ | ⟨ep, -, -, he⟩ | ⟨-, -, he⟩ :=
        (l.touch ts curr).core.endpointStore.getOrCreateEndpoint_cases name
      · exact absurd hn hname
      · rw [he]; exact ⟨_, _, rfl⟩
      · rw [he]; exact ⟨_, _, rfl⟩
  obtain ⟨ep, m, hcon⟩ := hcon
  unfold Context.sendIndex at h
  simp only [hs, hcon] at h
  split at h
  · obtain ⟨l1, -, hx⟩ := Option.map_eq_some_iff.1 h
    cases hx; rfl
  · cases h; rfl

/-- What was retransmitted stays on the list. -/
theorem sendIndices_resent : ∀ {is : List Nat} {l l' : Sending} {b : Bool},
    Context.sendIndices ts draw sid is l = some (b, l') → l.resent ≠ [] → l'.resent ≠ []
  | [], l, l', b, h, hne => by cases h; exact hne
  | i :: is, l, l', b, h, hne => by
    have key : ∀ {b' m}, Context.sendIndex ts draw sid l i = some (b', m) → m.resent ≠ [] := by
      intro b' m hm
      rw [(sendIndex_touch hm).1, touch_resent]
      split
      · simp
      · exact hne
    unfold Context.sendIndices at h
    split at h
    · cases h; exact hne
    · split at h
      · cases h
      · rename_i h1; cases h; exact key h1
      · rename_i h1; exact sendIndices_resent h (key h1)

/-- A packet that is retransmitted was sent before the call, and it and those before it were old enough. -/
theorem due_of_resent (hrto : 0 < c.recvRto) :
    ∀ {is : List Nat} {l l' : Sending} {b : Bool}, Sound c q l → Stamps ts q l →
    l.resent = [] → Context.sendIndices ts draw sid is l = some (b, l') → l'.resent ≠ [] →
    ∃ before i after, is = before ++ i :: after ∧ (q.ring.getMutableEntry i).ts ≠ 0 ∧
      ∀ j ∈ before ++ [i], c.recvRto ≤ sub64 ts (q.ring.getMutableEntry j).ts
  | [], l, l', b, _, _, h0, h, hne => by cases h; exact absurd h0 hne
  | i :: is, l, l', b, hsound, hst, h0, h, hne => by
    have hcap := hsound.ring.queueCapacity
    have hrt : l.core.recvRto = c.recvRto := by rw [hsound.core]
    unfold Context.sendIndices at h
    split at h
    · cases h; exact absurd h0 hne
    · rename_i hage
      rw [hrt, not_lt] at hage
      -- an entry sent in this pass is too young
      have hsame : (l.queue.ring.getMutableEntry i).ts = (q.ring.getMutableEntry i).ts := by
        unfold SendRing.getMutableEntry at hage ⊢
        rw [hcap] at hage ⊢
        rcases hst (i % q.ring.queueCapacity) with he | ⟨he, -⟩
        · exact he
        · rw [he, sub64_self] at hage; omega
      rw [hsame] at hage
      by_cases hz : (q.ring.getMutableEntry i).ts = 0
      · have hgo : ∀ {b' m}, Context.sendIndex ts draw sid l i = some (b', m) → m.resent = [] := by
          intro b' m hm
          rw [(sendIndex_touch hm).1, touch_resent, if_neg (by rw [hsame]; simpa using hz), h0]
        split at h
        · cases h
        · rename_i h1; cases h; exact absurd (hgo h1) hne
        · rename_i h1
          obtain ⟨before, j, after, rfl, hj, hall⟩ :=
            due_of_resent hrto (hsound.sendIndex h1) (hst.sendIndex h1) (hgo h1) h hne
          refine ⟨i :: before, j, after, rfl, hj, fun k hk => ?_⟩
          rcases List.mem_cons.1 hk with rfl | hk
          · exact hage
          · exact hall k hk
      · refine ⟨[], i, is, rfl, hz, fun j hj => ?_⟩
        rw [List.mem_singleton.1 hj]
        exact hage

/-- A packet that is due, with nothing younger before it, is retransmitted. -/
theorem resent_of_due (hready : q.ring.Ready q.tail) {name : String} (hname : name ≠ "")
    (hrev : c.controller.peerNameRevMap (sid / 256) = some name) {i : Nat} {after : List Nat}
    (hi : (q.ring.getMutableEntry i).ts ≠ 0) (hage : c.recvRto ≤ sub64 ts (q.ring.getMutableEntry i).ts) :
    ∀ {before : List Nat} {l l' : Sending} {b : Bool}, Sound c q l → Stamps ts q l →
      (before.map (· % q.ring.queueCapacity)).Nodup →
      (∀ j ∈ before, j < q.ring.head ∧ c.recvRto ≤ sub64 ts (q.ring.getMutableEntry j).ts ∧
        (l.queue.ring.getMutableEntry j).ts = (q.ring.getMutableEntry j).ts) →
      Context.sendIndices ts draw sid (before ++ i :: after) l = some (b, l') → l'.resent ≠ []
  | [], l, l', b, hsound, hst, _, _, h => by
    have hcap := hsound.ring.queueCapacity
    have hrt : l.core.recvRto = c.recvRto := by rw [hsound.core]
    by_cases hres : l.resent = []
    · have hsame : (l.queue.ring.getMutableEntry i).ts = (q.ring.getMutableEntry i).ts := by
        unfold SendRing.getMutableEntry at hi ⊢
        rw [hcap]
        rcases hst (i % q.ring.queueCapacity) with he | ⟨-, he⟩
        · exact he
        · exact absurd hres (he hi)
      have hgo : ∀ {b' m}, Context.sendIndex ts draw sid l i = some (b', m) → m.resent ≠ [] := by
        intro b' m hm
        rw [(sendIndex_touch hm).1, touch_resent, if_pos (by rw [hsame]; exact hi)]
        simp
      rw [List.nil_append] at h
      unfold Context.sendIndices at h
      rw [hsame, hrt, if_neg (not_lt.2 hage)] at h
      split at h
      · cases h
      · rename_i h1; cases h; exact hgo h1
      · rename_i h1; exact sendIndices_resent h (hgo h1)
    · exact sendIndices_resent h hres
  | j :: before, l, l', b, hsound, hst, hnd, hall, h => by
    have hcap := hsound.ring.queueCapacity
    have hrt : l.core.recvRto = c.recvRto := by rw [hsound.core]
    obtain ⟨hj1, hj2, hj3⟩ := hall j (by simp)
    rw [List.map_cons, List.nodup_cons] at hnd
    rw [List.cons_append] at h
    unfold Context.sendIndices at h
    rw [hj3, hrt, if_neg (not_lt.2 hj2)] at h
    split at h
    · cases h
    · rename_i h1; exact absurd (sendIndex_true hsound hready hname hrev hj1 h1) (by simp)
    · rename_i l1 h1
      refine resent_of_due hready hname hrev hi hage (hsound.sendIndex h1) (hst.sendIndex h1) hnd.2 (fun k hk => ?_) h
      obtain ⟨hk1, hk2, hk3⟩ := hall k (by simp [hk])
      refine ⟨hk1, hk2, ?_⟩
      -- another slot than the one just sent
      have hne : k % q.ring.queueCapacity ≠ j % q.ring.queueCapacity := fun he =>
        hnd.1 (he ▸ List.mem_map_of_mem hk)
      have hcap1 := (hsound.sendIndex h1).ring.queueCapacity
      unfold SendRing.getMutableEntry at hk3 ⊢
      rw [hcap1]
      rw [hcap] at hk3
      rw [(sendIndex_touch h1).2, touch_handle, hcap, if_neg hne]
      exact hk3

theorem sendIndices_true (hready : q.ring.Ready q.tail) {name : String} (hname : name ≠ "")
    (hrev : c.controller.peerNameRevMap (sid / 256) = some name) : ∀ {is : List Nat} {l l' : Sending} {b : Bool},
      Sound c q l → (∀ i ∈ is, i < q.ring.head) → Context.sendIndices ts draw sid is l = some (b, l') → b = true
  | [], l, l', b, _, _, h => by cases h; rfl
  | i :: is, l, l', b, hsound, hlt, h => by
    unfold Context.sendIndices at h
    split at h
    · cases h; rfl
    · split at h
      · cases h
      · rename_i h1; exact absurd (sendIndex_true hsound hready hname hrev (hlt i (by simp)) h1) (by simp)
      · rename_i h1
        exact sendIndices_true hready hname hrev (hsound.sendIndex h1) (fun k hk => hlt k (by simp [hk])) h

theorem finish_resent (h : Context.finish draw l = some l') : l'.resent = l.resent := by
  unfold Context.finish at h
  split at h
  · cases h; rfl
  · cases h
  · exact (flush_resent h).1

end Sending

/-! ## Sessions -/

/-- The loop of a session retransmits exactly when its window has a packet that is due. -/
theorem sendIndices_resent_iff {c : Core} {e : SessionInfo} {q : SendQueue} {ts sid : Nat} {draw : Nat → Post}
    {l : Sending} {b : Bool} (hrto : 0 < c.recvRto) (hready : q.ring.Ready q.tail) {name : String} (hname : name ≠ "")
    (hrev : c.controller.peerNameRevMap (sid / 256) = some name)
    (h : sendIndices ts draw sid (sendRange q e) ⟨c, e, q, none, [], 0, []⟩ = some (b, l)) :
    l.resent ≠ [] ↔ ∃ i, q.tail ≤ i ∧ i < min q.ring.head (q.tail + e.cwnd) ∧ (q.ring.getMutableEntry i).ts ≠ 0 ∧
      ∀ j, q.tail ≤ j → j ≤ i → c.recvRto ≤ sub64 ts (q.ring.getMutableEntry j).ts := by
  have hsound : Sending.Sound c q ⟨c, e, q, none, [], 0, []⟩ := ⟨rfl, rfl, .refl _, ⟨[], by simp, by simp⟩, by simp⟩
  have hst : Sending.Stamps ts q ⟨c, e, q, none, [], 0, []⟩ := fun _ => .inl rfl
  have htl := hready.tailLe
  have hlen := hready.lenCap
  unfold sendRange at h
  constructor
  · intro hne
    obtain ⟨before, i, after, hsplit, hi, hall⟩ := Sending.due_of_resent hrto hsound hst rfl h hne
    obtain ⟨k, hk, rfl, hrest⟩ := List.range'_eq_append_iff.1 hsplit
    obtain ⟨rfl, hpos, -⟩ := List.range'_eq_cons_iff.1 hrest.symm
    refine ⟨_, Nat.le_add_right _ _, by omega, hi, fun j h1 h2 => hall j ?_⟩
    rw [List.mem_append, List.mem_range'_1, List.mem_singleton]
    omega
  · rintro ⟨i, h1, h2, hi, hall⟩
    have hsplit : List.range' q.tail (min q.ring.head (q.tail + e.cwnd) - q.tail) =
        List.range' q.tail (i - q.tail) ++ i :: List.range' (i + 1) (min q.ring.head (q.tail + e.cwnd) - i - 1) := by
      refine List.range'_eq_append_iff.2 ⟨i - q.tail, by omega, rfl, ?_⟩
      exact (List.range'_eq_cons_iff.2 ⟨by omega, by omega, by congr 1; omega⟩).symm
    rw [hsplit] at h
    refine Sending.resent_of_due hready hname hrev hi (hall i h1 le_rfl) hsound hst ?_ (fun j hj => ?_) h
    · refine List.Nodup.map_on (fun x hx y hy hxy => ?_) List.nodup_range'
      rw [List.mem_range'_1] at hx hy
      by_contra hne
      exact Ring.slot_ne hx.1 (by omega) hy.1 (by omega) hne hxy
    · rw [List.mem_range'_1] at hj
      exact ⟨by omega, hall j hj.1 (by omega), rfl⟩

/-- One session of `sendDataPackets`, from a state that can send: no error, and a retransmission exactly
when one is due. -/
theorem sendSession_resent_iff {c c' : Core} (h : Sendable c) {ts sid : Nat} {draw : Nat → Post} {e : SessionInfo}
    {b : Bool} {resent : List Nat} (he : c.activeSessionMap.lookup sid = some e)
    (hs : sendSession ts draw c sid = some (b, c', resent)) : b = true ∧ (resent ≠ [] ↔ RetransmitDue c ts e) := by
  obtain ⟨name, hrev⟩ := h.peer sid e he
  have hname := h.named _ name hrev
  have hrto : 0 < c.recvRto := lt_of_lt_of_le (by decide) h.rto
  unfold sendSession at hs
  rw [he] at hs
  simp only at hs
  split at hs
  · rename_i hpaced
    cases hs
    exact ⟨rfl, fun hne => absurd rfl hne, fun hd => absurd hd.1 (not_le.2 hpaced)⟩
  · rename_i hpaced
    split at hs
    · cases hs
    · rename_i ptr hptr
      split at hs
      · cases hs
      · rename_i q hq
        have hready := h.ready ptr q hq
        have hiff : ∀ {b' l}, sendIndices ts draw sid (sendRange q e) ⟨c, e, q, none, [], 0, []⟩ = some (b', l) →
            (l.resent ≠ [] ↔ RetransmitDue c ts e) := by
          intro b' l hl
          rw [sendIndices_resent_iff hrto hready hname hrev hl]
          constructor
          · exact fun hd => ⟨not_lt.1 hpaced, q, by rw [hptr, Option.bind_some, hq], hd⟩
          · rintro ⟨-, q', hq', hd⟩
            rw [hptr, Option.bind_some, hq] at hq'
            cases hq'
            exact hd
        have hb : ∀ {b' l}, sendIndices ts draw sid (sendRange q e) ⟨c, e, q, none, [], 0, []⟩ = some (b', l) →
            b' = true := by
          intro b' l hl
          refine Sending.sendIndices_true hready hname hrev ⟨rfl, rfl, .refl _, ⟨[], by simp, by simp⟩, by simp⟩
            (fun i hi => ?_) hl
          have := (List.mem_range'_1.1 hi).2
          have := hready.tailLe
          omega
        split at hs
        · cases hs
        · rename_i l hl; exact absurd (hb hl) (by simp)
        · rename_i l hl
          obtain ⟨l', hf, hx⟩ := Option.map_eq_some_iff.1 hs
          cases hx
          rw [Sending.finish_resent hf]
          exact ⟨rfl, hiff hl⟩

end Context

/-- What a call of `sendDataPackets` retransmitted of a session. -/
def resentOf (log : List (Nat × List Nat)) (sid : Nat) : List Nat := ((log.find? (·.1 == sid)).map (·.2)).getD []

theorem resentOf_cons (log : List (Nat × List Nat)) (s sid : Nat) (resent : List Nat) :
    resentOf ((s, resent) :: log) sid = if s = sid then resent else resentOf log sid := by
  unfold resentOf
  by_cases hs : s = sid
  · rw [if_pos hs, List.find?_cons_of_pos (by simpa using hs)]
    rfl
  · rw [if_neg hs, List.find?_cons_of_neg (by simpa using hs)]

namespace Context

theorem Sendable.sendSession {c c' : Core} (h : Sendable c) {ts sid : Nat} {draw : Nat → Post} {b : Bool}
    {resent : List Nat} (hs : Context.sendSession ts draw c sid = some (b, c', resent)) :
    Sendable c' ∧ c'.activeSessionMap = c.activeSessionMap ∧ c'.recvRto = c.recvRto ∧
      ∀ k, k ≠ sid → c'.packetManager.sendQueue k = c.packetManager.sendQueue k := by
  obtain rfl | ⟨e, ptr, q, q', st, ds, he, hptr, hq, ht, hring, -, -, rfl⟩ := sendSession_some hs
  · exact ⟨h, rfl, rfl, fun _ _ => rfl⟩
  · obtain rfl := h.ptr sid e ptr he hptr
    have hready := h.ready.update ptr (sendRule_ready.restamp (h.ready ptr q hq) ht hring)
    exact ⟨⟨h.rto, hready, h.wf, h.named, h.ptr, h.peer⟩, rfl, rfl,
      fun k hk => Function.update_of_ne hk _ _⟩

/-- A call of `sendDataPackets`, from a state that can send, retransmits packets of exactly the sessions
for which that is due before the call. -/
theorem sendDataPackets_resent_iff {ts : Nat} {draw : Nat → Nat → Post} : ∀ {order : List Nat} {c c' : Core} {ret : Int}
    {log : List (Nat × List Nat)}, Sendable c → order.Nodup → sendDataPackets ts draw order c = some (ret, c', log) →
    ∀ sid ∈ order, ∀ e, c.activeSessionMap.lookup sid = some e → (resentOf log sid ≠ [] ↔ RetransmitDue c ts e)
  | [], _, _, _, _, _, _, _ => fun sid hsid => nomatch hsid
  | s :: rest, c, c', ret, log, h, hnd, hs => by
    rw [List.nodup_cons] at hnd
    intro sid hsid e he
    unfold sendDataPackets at hs
    split at hs
    · cases hs
    · rename_i c1 resent h1
      cases hs
      -- the loop ended with an error, which the first session cannot have
      obtain ⟨x, hx⟩ : ∃ x, c.activeSessionMap.lookup s = some x := by
        unfold sendSession at h1
        cases hl : c.activeSessionMap.lookup s with
        | none => rw [hl] at h1; cases h1
        | some x => exact ⟨x, rfl⟩
      exact absurd (sendSession_resent_iff h hx h1).1 (by simp)
    · rename_i c1 resent h1
      obtain ⟨⟨ret', c2, log'⟩, hr, hx⟩ := Option.map_eq_some_iff.1 hs
      cases hx
      obtain ⟨hc1, hm, hrto, hother⟩ := h.sendSession h1
      rw [resentOf_cons]
      split
      · rename_i heq
        subst heq
        exact (sendSession_resent_iff h he h1).2
      · rename_i hne
        have hmem : sid ∈ rest := (List.mem_cons.1 hsid).resolve_left (Ne.symm hne)
        rw [sendDataPackets_resent_iff hc1 hnd.2 hr sid hmem e (by rw [hm]; exact he)]
        -- the session's own queue is untouched
        have hq : e.sendQueue.bind c1.packetManager.sendQueue = e.sendQueue.bind c.packetManager.sendQueue := by
          cases hp : e.sendQueue with
          | none => rfl
          | some ptr =>
            obtain rfl := h.ptr sid e ptr he hp
            exact hother ptr (Ne.symm hne)
        unfold RetransmitDue
        rw [hq, hrto]

end Context

end RapidTransfer
