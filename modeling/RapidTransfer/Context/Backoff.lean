/-
The reaction to a retransmission. Both `sendDataPackets` back off on the loop's copy of the session
entry and install the window in the send queue itself, so the stored entry and the installed window
part ways at the first retransmission. `backoff_stored_iff` gives the states in which that cannot be
seen: nothing is due, or, for a group, the stored entry is what the backoff would have left anyway.
-/
import RapidTransfer.Context.Retransmit

namespace RapidTransfer

open RapidTransfer.Core

/-! ## The multicast context -/

namespace ContextMcast

/-- Every session leads to its own multicast send queue, and the timeout is positive. -/
structure Sendable (c : ContextMcast) : Prop where
  rto : kMinRTO ≤ c.recvRto
  ptr : ∀ sid e ptr, c.activeSessionMap.lookup sid = some e → e.mcastSendQueue = some ptr → ptr = sid

theorem sendable_start {cfg : Config} {c : ContextMcast} (h : start cfg = some c) : Sendable c := by
  obtain ⟨core, hcore, rfl⟩ := Option.map_eq_some_iff.1 h
  obtain ⟨r, -, rfl⟩ := Option.map_eq_some_iff.1 hcore
  refine ⟨show kMinRTO ≤ kDefaultRTO by decide, fun sid e ptr he => ?_⟩
  simp at he

theorem Sendable.step {c c' : ContextMcast} {e : Event} (h : Sendable c) (hs : ContextMcast.step c e = some c') :
    Sendable c' := by
  constructor
  · rcases (step_controller hs).2 with he | he
    · rw [he]; exact h.rto
    · exact he.1
  · have hown : c'.toCore.Entries (Own (·.mcastSendQueue)) :=
      entries_step (entryRule_own (fun hk => hk.mcastSendQueue) (fun _ => rfl) fun _ _ _ => rfl)
        (fun sid x hx ptr hp => h.ptr sid x ptr hx hp) hs
    exact fun sid e' ptr he' hp => hown sid e' he' ptr hp

theorem sendable_of_reachable {cfg : Config} {es : List Event} {c : ContextMcast} (h : Reachable cfg es c) :
    Sendable c := by
  obtain ⟨c0, h0, hrun⟩ := h
  exact hrun.invariant (sendable_start h0) fun x e x' hx _ hs => hx.step hs

/-- The session is a group's, and its queue holds an entry that was sent before and is as old as the
timeout; younger entries do not stop `forEach`. -/
def RetransmitDue (c : ContextMcast) (currentTs sid : Nat) (e : SessionInfo) : Prop :=
  ((c.controller.peerNameRevMap (sid / 256)).filter (· ∈ c.controller.multicastContextMap)).isSome = true ∧
    ∃ q, e.mcastSendQueue.bind c.packetManager.mcastSendQueue = some q ∧
      ∃ i ∈ sendRange q, (q.ring.getMutableEntry i).ts ≠ 0 ∧ c.recvRto ≤ sub64 currentTs (q.ring.getMutableEntry i).ts

namespace Sending

abbrev Stamps (ts : Nat) (q : McastSendQueue) (l : Sending) : Prop := q.ring.Stamps ts l.queue.ring l.resent

/-- A retransmission leaves a window of one packet. -/
def Narrow (q : McastSendQueue) (l : Sending) : Prop :=
  l.resent ≠ [] → l.queue.ring.wndSize = min 1 (q.ring.queueCapacity % 2 ^ 16)

variable {c : ContextMcast} {q : McastSendQueue} {l l' : Sending} {mtu ts curr : Nat} {draw : Nat → Bool}

theorem touch_resent (l : Sending) (mtu ts curr : Nat) : (l.touch mtu ts curr).resent =
    if (l.queue.ring.getMutableEntry curr).ts ≠ 0 then l.resent ++ [curr] else l.resent := by
  unfold touch
  split
  · rfl
  · rfl

theorem touch_handle (l : Sending) (mtu ts curr k : Nat) : ((l.touch mtu ts curr).queue.ring.handle k).ts =
    if k = curr % l.queue.ring.queueCapacity then ts else (l.queue.ring.handle k).ts := by
  unfold touch
  split
  · exact SendRing.setTs_handle_ts _ curr ts k
  · exact SendRing.setTs_handle_ts _ curr ts k

theorem Narrow.touch (hsound : Sound q l) (h : Narrow q l) (mtu ts curr : Nat) : Narrow q (l.touch mtu ts curr) := by
  unfold Narrow
  rw [touch_resent]
  unfold Sending.touch
  split
  · intro _
    show min (1 % 2 ^ 16) (l.queue.ring.queueCapacity % 2 ^ 16) = _
    rw [hsound.ring.queueCapacity, Nat.mod_eq_of_lt (by decide : 1 < 2 ^ 16)]
  · exact h

theorem flush_resent {n : Int} (h : l.flush n draw = some l') : l'.resent = l.resent ∧ l'.queue = l.queue := by
  unfold flush at h
  simp only at h
  split at h
  · cases h; exact ⟨rfl, rfl⟩
  · split at h
    · cases h
    · cases h; exact ⟨rfl, rfl⟩

/-- An entry is too young, or the queue and the list of retransmissions see the touch only. -/
theorem sendIndex_touch (h : ContextMcast.sendIndex c ts draw l curr = some l') :
    (sub64 ts (l.queue.ring.getMutableEntry curr).ts < c.recvRto ∧ l' = l) ∨
    (c.recvRto ≤ sub64 ts (l.queue.ring.getMutableEntry curr).ts ∧
      l'.resent = (l.touch c.mtuSize ts curr).resent ∧ l'.queue = (l.touch c.mtuSize ts curr).queue) := by
  unfold ContextMcast.sendIndex at h
  split at h
  · rename_i hage; cases h; exact .inl ⟨hage, rfl⟩
  · rename_i hage
    refine .inr ⟨not_lt.1 hage, ?_⟩
    simp only at h
    split at h
    · cases h; exact ⟨rfl, rfl⟩
    · split at h
      · obtain ⟨hr, hq⟩ := flush_resent h
        exact ⟨hr, hq⟩
      · cases h; exact ⟨rfl, rfl⟩

/-- One entry: counted exactly when it was sent before the call and is old enough. -/
theorem sendIndex_resent_iff (hrto : 0 < c.recvRto) (hsound : Sound q l) (hst : Stamps ts q l) (hn : Narrow q l)
    (h : ContextMcast.sendIndex c ts draw l curr = some l') :
    Stamps ts q l' ∧ Narrow q l' ∧ (l'.resent ≠ [] ↔ l.resent ≠ [] ∨
      ((q.ring.getMutableEntry curr).ts ≠ 0 ∧ c.recvRto ≤ sub64 ts (q.ring.getMutableEntry curr).ts)) := by
  have hcap := hsound.ring.queueCapacity
  -- the entry as it was, or as this pass has sent it
  have hslot : (l.queue.ring.getMutableEntry curr).ts = (q.ring.getMutableEntry curr).ts ∨
      ((l.queue.ring.getMutableEntry curr).ts = ts ∧ ((q.ring.getMutableEntry curr).ts ≠ 0 → l.resent ≠ [])) := by
    unfold SendRing.getMutableEntry
    rw [hcap]
    exact hst _
  obtain ⟨hage, rfl⟩ | ⟨hage, hr, hq⟩ := sendIndex_touch h
  · refine ⟨hst, hn, ⟨.inl, ?_⟩⟩
    rintro (hne | ⟨h0, hold⟩)
    · exact hne
    · rcases hslot with he | ⟨-, hne⟩
      · rw [he] at hage; omega
      · exact hne h0
  · have hsame : (l.queue.ring.getMutableEntry curr).ts = (q.ring.getMutableEntry curr).ts := by
      rcases hslot with he | ⟨he, -⟩
      · exact he
      · rw [he, sub64_self] at hage; omega
    have hnt := hn.touch hsound c.mtuSize ts curr
    refine ⟨SendRing.Stamps.send hst (fun k => by rw [hq]; exact touch_handle l _ ts curr k)
      (hr.trans (touch_resent l _ ts curr)), by unfold Narrow; rw [hr, hq]; exact hnt, ?_⟩
    rw [hr, touch_resent, hsame]
    rw [hsame] at hage
    split
    · rename_i h0
      exact ⟨fun _ => .inr ⟨h0, hage⟩, fun _ => by simp⟩
    · rename_i h0
      exact ⟨.inl, fun hx => hx.elim id fun hy => absurd hy.1 h0⟩

/-- The loop retransmits exactly when the queue has an entry that is due. -/
theorem sendIndices_resent_iff (hrto : 0 < c.recvRto) : ∀ {is : List Nat} {l l' : Sending}, Sound q l → Stamps ts q l →
    Narrow q l → ContextMcast.sendIndices c ts draw is l = some l' →
    Narrow q l' ∧ (l'.resent ≠ [] ↔ l.resent ≠ [] ∨ ∃ i ∈ is, (q.ring.getMutableEntry i).ts ≠ 0 ∧
      c.recvRto ≤ sub64 ts (q.ring.getMutableEntry i).ts)
  | [], l, l', _, _, hn, h => by cases h; exact ⟨hn, by simp⟩
  | i :: is, l, l', hsound, hst, hn, h => by
    obtain ⟨l1, h1, h2⟩ := Option.bind_eq_some_iff.1 h
    obtain ⟨hst1, hn1, hiff⟩ := sendIndex_resent_iff hrto hsound hst hn h1
    obtain ⟨hn2, hiff2⟩ := sendIndices_resent_iff hrto (hsound.sendIndex h1) hst1 hn1 h2
    refine ⟨hn2, ?_⟩
    rw [hiff2, hiff, or_assoc]
    simp only [List.mem_cons, exists_eq_or_imp]

end Sending

/-- One session of `sendDataPackets`: it retransmits exactly when that is due, and then leaves a window
of one packet. -/
theorem sendSession_resent_iff {c c' : ContextMcast} (h : Sendable c) {ts sid : Nat} {draw : Nat → Bool}
    {e : SessionInfo} {resent : List Nat} (he : c.activeSessionMap.lookup sid = some e)
    (hs : sendSession ts draw c sid = some (c', resent)) :
    (resent ≠ [] ↔ RetransmitDue c ts sid e) ∧
      (resent ≠ [] → ∃ q q', e.mcastSendQueue.bind c.packetManager.mcastSendQueue = some q ∧
        e.mcastSendQueue.bind c'.packetManager.mcastSendQueue = some q' ∧
        q'.ring.queueCapacity = q.ring.queueCapacity ∧ q'.ring.wndSize = min 1 (q.ring.queueCapacity % 2 ^ 16)) := by
  have hrto : 0 < c.recvRto := lt_of_lt_of_le (by decide) h.rto
  unfold sendSession at hs
  rw [he] at hs
  simp only at hs
  split at hs
  · rename_i hg
    cases hs
    refine ⟨⟨fun hne => absurd rfl hne, fun hd => ?_⟩, fun hne => absurd rfl hne⟩
    have := hd.1
    rw [hg] at this
    cases this
  · rename_i addr hg
    split at hs
    · cases hs
    · rename_i ptr hptr
      split at hs
      · cases hs
      · rename_i q hq
        obtain ⟨l, hl, hx⟩ := Option.map_eq_some_iff.1 hs
        cases hx
        have hsound := Sending.Sound.sendQueue hl
        obtain ⟨l1, h1, h2⟩ := Option.bind_eq_some_iff.1 hl
        obtain ⟨hn, hiff⟩ := Sending.sendIndices_resent_iff hrto (q := q) ⟨rfl, .refl _⟩ (fun _ => .inl rfl)
          (fun hne => absurd rfl hne) h1
        have hl1 : l.resent = l1.resent ∧ l.queue = l1.queue := by
          split at h2
          · cases h2; exact ⟨rfl, rfl⟩
          · exact Sending.flush_resent h2
        have hbind : e.mcastSendQueue.bind c.packetManager.mcastSendQueue = some q := by
          rw [hptr, Option.bind_some, hq]
        refine ⟨?_, fun hne => ⟨q, l.queue, hbind, ?_, hsound.ring.queueCapacity, ?_⟩⟩
        · rw [hl1.1, hiff]
          constructor
          · rintro (hne | hd)
            · exact absurd rfl hne
            · exact ⟨by rw [hg]; rfl, q, hbind, hd⟩
          · rintro ⟨-, q', hq', hd⟩
            rw [hbind] at hq'
            cases hq'
            exact .inr hd
        · rw [hptr, Option.bind_some]
          exact Function.update_self _ _ _
        · rw [hl1.2]
          exact hn (hl1.1 ▸ hne)

/-- A session of `sendDataPackets` leaves the other queues alone. -/
theorem Sendable.sendSession {c c' : ContextMcast} (h : Sendable c) {ts sid : Nat} {draw : Nat → Bool}
    {resent : List Nat} (hs : ContextMcast.sendSession ts draw c sid = some (c', resent)) :
    Sendable c' ∧ c'.activeSessionMap = c.activeSessionMap ∧ c'.recvRto = c.recvRto ∧ c'.controller = c.controller ∧
      ∀ k, k ≠ sid → c'.packetManager.mcastSendQueue k = c.packetManager.mcastSendQueue k := by
  obtain ⟨rfl, -⟩ | ⟨e, ptr, q, q', depth, he, hptr, hq, ht, hring, rfl⟩ := sendSession_some hs
  · exact ⟨h, rfl, rfl, rfl, fun _ _ => rfl⟩
  · obtain rfl := h.ptr sid e ptr he hptr
    exact ⟨⟨h.rto, h.ptr⟩, rfl, rfl, rfl, fun k hk => Function.update_of_ne hk _ _⟩

theorem Sendable.queue_other {c c' : ContextMcast} (h : Sendable c) {s sid : Nat} {e : SessionInfo}
    (he : c.activeSessionMap.lookup sid = some e) (hne : s ≠ sid)
    (hk : ∀ k, k ≠ s → c'.packetManager.mcastSendQueue k = c.packetManager.mcastSendQueue k) :
    e.mcastSendQueue.bind c'.packetManager.mcastSendQueue = e.mcastSendQueue.bind c.packetManager.mcastSendQueue := by
  cases hp : e.mcastSendQueue with
  | none => rfl
  | some ptr =>
    obtain rfl := h.ptr sid e ptr he hp
    exact hk ptr (Ne.symm hne)

/-- Sessions that are not in the order keep their queues. -/
theorem sendDataPackets_other {ts : Nat} {draw : Nat → Nat → Bool} {sid : Nat} {e : SessionInfo} :
    ∀ {order : List Nat} {c c' : ContextMcast} {ret : Int} {log : List (Nat × List Nat)}, Sendable c →
      c.activeSessionMap.lookup sid = some e → sid ∉ order → sendDataPackets ts draw order c = some (ret, c', log) →
      e.mcastSendQueue.bind c'.packetManager.mcastSendQueue = e.mcastSendQueue.bind c.packetManager.mcastSendQueue
  | [], c, c', ret, log, _, _, _, hs => by cases hs; rfl
  | s :: rest, c, c', ret, log, h, he, hmem, hs => by
    unfold sendDataPackets at hs
    split at hs
    · cases hs
    · rename_i c1 resent h1
      obtain ⟨⟨ret', c2, log'⟩, hr, hx⟩ := Option.map_eq_some_iff.1 hs
      cases hx
      obtain ⟨hc1, hm, -, -, hother⟩ := h.sendSession h1
      rw [List.mem_cons, not_or] at hmem
      rw [sendDataPackets_other hc1 (hm ▸ he) hmem.2 hr]
      exact h.queue_other he (Ne.symm hmem.1) hother

/-- A call of `sendDataPackets` retransmits packets of exactly the sessions for which that is due before
the call, and leaves them a window of one packet. -/
theorem sendDataPackets_resent_iff {ts : Nat} {draw : Nat → Nat → Bool} : ∀ {order : List Nat} {c c' : ContextMcast}
    {ret : Int} {log : List (Nat × List Nat)}, Sendable c → order.Nodup →
    sendDataPackets ts draw order c = some (ret, c', log) →
    ∀ sid ∈ order, ∀ e, c.activeSessionMap.lookup sid = some e →
      (resentOf log sid ≠ [] ↔ RetransmitDue c ts sid e) ∧
      (resentOf log sid ≠ [] → ∃ q q', e.mcastSendQueue.bind c.packetManager.mcastSendQueue = some q ∧
        e.mcastSendQueue.bind c'.packetManager.mcastSendQueue = some q' ∧
        q'.ring.queueCapacity = q.ring.queueCapacity ∧ q'.ring.wndSize = min 1 (q.ring.queueCapacity % 2 ^ 16))
  | [], _, _, _, _, _, _, _ => fun sid hsid => nomatch hsid
  | s :: rest, c, c', ret, log, h, hnd, hs => by
    rw [List.nodup_cons] at hnd
    intro sid hsid e he
    unfold sendDataPackets at hs
    split at hs
    · cases hs
    · rename_i c1 resent h1
      obtain ⟨⟨ret', c2, log'⟩, hr, hx⟩ := Option.map_eq_some_iff.1 hs
      cases hx
      obtain ⟨hc1, hm, hrto, hctrl, hother⟩ := h.sendSession h1
      rw [resentOf_cons]
      split
      · rename_i heq
        subst heq
        rw [sendDataPackets_other hc1 (hm ▸ he) hnd.1 hr]
        exact sendSession_resent_iff h he h1
      · rename_i hne
        have hmem : sid ∈ rest := (List.mem_cons.1 hsid).resolve_left (Ne.symm hne)
        have ih := sendDataPackets_resent_iff hc1 hnd.2 hr sid hmem e (hm ▸ he)
        unfold RetransmitDue at ih
        rw [h.queue_other he hne hother, hrto, hctrl] at ih
        exact ih

end ContextMcast

/-! ## The reaction and the map -/

/-- The two entries have the same congestion state. -/
structure SessionInfo.SameWindow (e e' : SessionInfo) : Prop where
  ssthresh : e.ssthresh = e'.ssthresh
  cwnd : e.cwnd = e'.cwnd
  incr : e.incr = e'.incr

/-- The reaction to the retransmissions of a session is in the map: the entry has backed off once for
each of them and has the send time, and its window is the one installed. -/
def Context.ReactionStored (c c' : Core) (currentTs sid : Nat) (e : SessionInfo) (resent : List Nat) : Prop :=
  resent ≠ [] → ∃ e' q', c'.activeSessionMap.lookup sid = some e' ∧
    e'.sendQueue.bind c'.packetManager.sendQueue = some q' ∧
    e'.SameWindow ((Context.backoff c.mtuSize)^[resent.length] e) ∧ e'.lastSendTs = currentTs ∧
    min e'.cwnd q'.ring.queueCapacity = q'.ring.wndSize

/-- As for the unicast context, without a send time. -/
def ContextMcast.ReactionStored (c c' : ContextMcast) (sid : Nat) (e : SessionInfo) (resent : List Nat) : Prop :=
  resent ≠ [] → ∃ e' q', c'.activeSessionMap.lookup sid = some e' ∧
    e'.mcastSendQueue.bind c'.packetManager.mcastSendQueue = some q' ∧
    e'.SameWindow ((ContextMcast.backoff c.mtuSize)^[resent.length] e) ∧
    min e'.cwnd q'.ring.queueCapacity = q'.ring.wndSize

/-- The entry is what backing off leaves it, and its queue can install a window of one. -/
def ContextMcast.BackedOff (c : ContextMcast) (e : SessionInfo) : Prop :=
  e.cwnd = 1 ∧ e.ssthresh = kMinSSThreshValue ∧ e.incr = c.mtuSize ∧
    ∀ q, e.mcastSendQueue.bind c.packetManager.mcastSendQueue = some q →
      min 1 q.ring.queueCapacity = min 1 (q.ring.queueCapacity % 2 ^ 16)

theorem ContextMcast.backoff_iterate (mtu : Nat) (e : SessionInfo) : ∀ k, 0 < k →
    ((backoff mtu)^[k] e).cwnd = 1 ∧ ((backoff mtu)^[k] e).incr = mtu ∧
      (e.cwnd = 1 → ((backoff mtu)^[k] e).ssthresh = kMinSSThreshValue)
  | 0, h => absurd h (lt_irrefl 0)
  | 1, _ => by
    refine ⟨rfl, rfl, fun h1 => ?_⟩
    simp [backoff, h1, kMinSSThreshValue]
  | k + 2, _ => by
    obtain ⟨h1, -, -⟩ := backoff_iterate mtu e (k + 1) (Nat.succ_pos k)
    rw [Function.iterate_succ_apply']
    refine ⟨rfl, rfl, fun _ => ?_⟩
    show max kMinSSThreshValue (((backoff mtu)^[k + 1] e).cwnd / 2) = kMinSSThreshValue
    rw [h1]
    rfl

/-- A session that is in the map is in any order the map may be walked in. -/
theorem mem_order {m : AList fun _ : Nat => SessionInfo} {order : List Nat} (h : order.Perm m.keys) {sid : Nat}
    {e : SessionInfo} (he : m.lookup sid = some e) : sid ∈ order ∧ order.Nodup := by
  refine ⟨h.mem_iff.2 ?_, h.nodup_iff.2 m.nodupKeys⟩
  exact AList.lookup_isSome.1 (by rw [he]; rfl)

/-- The stored send time is never that of a call that retransmits, so nothing may be due. -/
theorem Context.reactionStored_iff {c c' : Core} (h : Context.Sendable c) {ts : Nat} {order : List Nat}
    {draw : Nat → Nat → Post} {ret : Int} {log : List (Nat × List Nat)} {sid : Nat} {e : SessionInfo}
    (hok : Context.ok c (.sendData ts order draw)) (hs : Context.sendDataPackets ts draw order c = some (ret, c', log))
    (he : c.activeSessionMap.lookup sid = some e) :
    Context.ReactionStored c c' ts sid e (resentOf log sid) ↔ ¬ Context.RetransmitDue c ts e := by
  obtain ⟨hmem, hnd⟩ := mem_order hok he
  have hdue := Context.sendDataPackets_resent_iff h hnd hs sid hmem e he
  rw [← hdue, not_not]
  refine ⟨fun hr => ?_, fun h0 hne => absurd h0 hne⟩
  by_contra hne
  obtain ⟨e', q', he', -, -, hts, -⟩ := hr hne
  rw [(Context.sendDataPackets_frame hs).1, he] at he'
  cases he'
  -- a session that retransmits was not paced
  have hpaced := (hdue.1 hne).1
  have hrto := h.rto
  rw [hts, sub64_self] at hpaced
  unfold Context.kMinRTO at hrto
  omega

/-- The stored entry stays as it was, so it has to be what the backoff leaves. -/
theorem ContextMcast.reactionStored_iff {c c' : ContextMcast}
    (h : ContextMcast.Sendable c) {ts : Nat} {order : List Nat}
    {draw : Nat → Nat → Bool} {ret : Int} {log : List (Nat × List Nat)} {sid : Nat} {e : SessionInfo}
    (hok : ContextMcast.ok c (.sendData ts order draw))
    (hs : ContextMcast.sendDataPackets ts draw order c = some (ret, c', log))
    (he : c.activeSessionMap.lookup sid = some e) :
    ContextMcast.ReactionStored c c' sid e (resentOf log sid) ↔
      ¬ ContextMcast.RetransmitDue c ts sid e ∨ ContextMcast.BackedOff c e := by
  obtain ⟨hmem, hnd⟩ := mem_order hok he
  obtain ⟨hdue, hwnd⟩ := ContextMcast.sendDataPackets_resent_iff h hnd hs sid hmem e he
  have hmap : c'.activeSessionMap = c.activeSessionMap := by
    obtain ⟨queues, depth, rfl⟩ := ContextMcast.sendDataPackets_frame hs
    rfl
  rw [← hdue, not_not]
  by_cases hne : resentOf log sid = []
  · exact ⟨fun _ => .inl hne, fun _ hx => absurd hne hx⟩
  obtain ⟨q, q', hq, hq', hcap, hw⟩ := hwnd hne
  obtain ⟨h1, h2, h3⟩ := ContextMcast.backoff_iterate c.mtuSize e _ (List.length_pos_iff.2 hne)
  constructor
  · intro hr
    right
    obtain ⟨e', x, he', hx, hsame, hmin⟩ := hr hne
    rw [hmap, he] at he'
    cases he'
    rw [hq'] at hx
    cases hx
    have hc : e.cwnd = 1 := hsame.cwnd.trans h1
    refine ⟨hc, hsame.ssthresh.trans (h3 hc), hsame.incr.trans h2, fun x hx => ?_⟩
    rw [hq] at hx
    cases hx
    rw [hc, hcap, hw] at hmin
    exact hmin
  · rintro (h0 | ⟨hc, hss, hincr, hcapq⟩) -
    · exact absurd h0 hne
    · refine ⟨e, q', by rw [hmap, he], hq', ⟨hss.trans (h3 hc).symm, hc.trans h1.symm, hincr.trans h2.symm⟩, ?_⟩
      rw [hc, hcap, hw]
      exact hcapq q hq

/-- In every reachable state and for every session, the reaction to the retransmissions of a call of
`sendDataPackets` is stored exactly when there is nothing to react to, or, in the multicast context, the
stored entry has backed off already. -/
theorem backoff_stored_iff (cfg : Core.Config) :
    (∀ (es : List Context.Event) (c c' : Core) (ts : Nat) (order : List Nat) (draw : Nat → Nat → Post) (ret : Int)
        (log : List (Nat × List Nat)) (sid : Nat) (e : SessionInfo),
      Context.Reachable cfg es c → Context.ok c (.sendData ts order draw) →
      Context.sendDataPackets ts draw order c = some (ret, c', log) → c.activeSessionMap.lookup sid = some e →
      (Context.ReactionStored c c' ts sid e (resentOf log sid) ↔ ¬ Context.RetransmitDue c ts e)) ∧
    (∀ (es : List ContextMcast.Event) (c c' : ContextMcast) (ts : Nat) (order : List Nat) (draw : Nat → Nat → Bool)
        (ret : Int) (log : List (Nat × List Nat)) (sid : Nat) (e : SessionInfo),
      ContextMcast.Reachable cfg es c → ContextMcast.ok c (.sendData ts order draw) →
      ContextMcast.sendDataPackets ts draw order c = some (ret, c', log) → c.activeSessionMap.lookup sid = some e →
      (ContextMcast.ReactionStored c c' sid e (resentOf log sid) ↔
        ¬ ContextMcast.RetransmitDue c ts sid e ∨ ContextMcast.BackedOff c e)) := by
  constructor
  · intro es c c' ts order draw ret log sid e hreach hok hs he
    exact Context.reactionStored_iff (Context.sendable_of_reachable hreach) hok hs he
  · intro es c c' ts order draw ret log sid e hreach hok hs he
    exact ContextMcast.reactionStored_iff (ContextMcast.sendable_of_reachable hreach) hok hs he

/-- A packet is sent at 4096 and again at 8192: the queue gets the window 4 of the backoff, the entry
keeps window 1 and its old send time. -/
theorem reaction_lost : ∃ c c' log e' q', Context.Reachable (smallConfig 256)
      [.setupConnection "a" 7 [1] [1] true, .send "a" [⟨100, 2⟩], .sendData 4096 [0] fun _ _ => ⟨0, 4⟩] c ∧
    Context.sendDataPackets 8192 (fun _ _ => ⟨0, 4⟩) [0] c = some (0, c', log) ∧ resentOf log 0 = [0] ∧
    c'.activeSessionMap.lookup 0 = some e' ∧ e'.sendQueue.bind c'.packetManager.sendQueue = some q' ∧
    e'.cwnd = 1 ∧ e'.lastSendTs = 0 ∧ q'.ring.wndSize = 4 ∧ q'.ring.queueCapacity = 64 := by
  obtain ⟨c0, c, h0, hrun, ht⟩ := Runs.exists_run_of_start Context.step Context.ok (Context.start (smallConfig 256))
    [.setupConnection "a" 7 [1] [1] true, .send "a" [⟨100, 2⟩], .sendData 4096 [0] fun _ _ => ⟨0, 4⟩]
    (fun c => (Context.sendDataPackets 8192 (fun _ _ => ⟨0, 4⟩) [0] c).any fun r : Int × Core × List (Nat × List Nat) =>
      decide (r.1 = 0 ∧ resentOf r.2.2 0 = [0]) && (r.2.1.activeSessionMap.lookup 0).any fun e : SessionInfo =>
        decide (e.cwnd = 1 ∧ e.lastSendTs = 0) && (e.sendQueue.bind r.2.1.packetManager.sendQueue).any
          fun q : SendQueue => decide (q.ring.wndSize = 4 ∧ q.ring.queueCapacity = 64)) (by decide +kernel)
  obtain ⟨⟨ret, c', log⟩, hs, hx⟩ := (Option.any_eq_true _ _).1 ht
  obtain ⟨h1, hx⟩ := Bool.and_eq_true_iff.1 hx
  obtain ⟨rfl, hlog⟩ := of_decide_eq_true h1
  obtain ⟨e', he', hx⟩ := (Option.any_eq_true _ _).1 hx
  obtain ⟨h2, hx⟩ := Bool.and_eq_true_iff.1 hx
  obtain ⟨q', hq', h3⟩ := (Option.any_eq_true _ _).1 hx
  obtain ⟨hc, hl⟩ := of_decide_eq_true h2
  obtain ⟨hw, hcap⟩ := of_decide_eq_true h3
  exact ⟨c, c', log, e', q', ⟨c0, h0, hrun⟩, hs, hlog, he', hq', hc, hl, hw, hcap⟩

/-- The first transmission of a packet is none to react to, in either context. -/
theorem first_transmission :
    (∃ c e, Context.Reachable (smallConfig 256) [.setupConnection "a" 7 [1] [1] true, .send "a" [⟨100, 2⟩]] c ∧
      c.activeSessionMap.lookup 0 = some e ∧ ¬ Context.RetransmitDue c 4096 e) ∧
    (∃ c e, ContextMcast.Reachable (smallConfig 512)
        [.joinMulticast "224.0.0.1" true true, .setMulticastReplicas "224.0.0.1" ["a"],
          .send "224.0.0.1" [⟨100, 2⟩]] c ∧ c.activeSessionMap.lookup 0 = some e ∧
      (¬ ContextMcast.RetransmitDue c 16384 0 e ∨ ContextMcast.BackedOff c e)) := by
  constructor
  · obtain ⟨c0, c, h0, hrun, ht⟩ := Runs.exists_run_of_start Context.step Context.ok (Context.start (smallConfig 256))
      [.setupConnection "a" 7 [1] [1] true, .send "a" [⟨100, 2⟩]]
      (fun c => decide (Context.ok c (.sendData 4096 [0] fun _ _ => ⟨0, 4⟩)) && ((c.activeSessionMap.lookup 0).isSome &&
        (Context.sendDataPackets 4096 (fun _ _ => ⟨0, 4⟩) [0] c).any fun r : Int × Core × List (Nat × List Nat) =>
          decide (resentOf r.2.2 0 = []))) (by decide +kernel)
    obtain ⟨hok, ht⟩ := Bool.and_eq_true_iff.1 ht
    obtain ⟨he, ht⟩ := Bool.and_eq_true_iff.1 ht
    obtain ⟨e, he⟩ := Option.isSome_iff_exists.1 he
    obtain ⟨⟨ret, c', log⟩, hs, hres⟩ := (Option.any_eq_true _ _).1 ht
    exact ⟨c, e, ⟨c0, h0, hrun⟩, he, ((backoff_stored_iff _).1 _ c c' 4096 [0] _ ret log 0 e ⟨c0, h0, hrun⟩
      (of_decide_eq_true hok) hs he).1 fun hne => absurd (of_decide_eq_true hres) hne⟩
  · obtain ⟨c0, c, h0, hrun, ht⟩ := Runs.exists_run_of_start ContextMcast.step ContextMcast.ok
      (ContextMcast.start (smallConfig 512))
      [.joinMulticast "224.0.0.1" true true, .setMulticastReplicas "224.0.0.1" ["a"], .send "224.0.0.1" [⟨100, 2⟩]]
      (fun c => decide (ContextMcast.ok c (.sendData 16384 [0] fun _ _ => true)) &&
        ((c.activeSessionMap.lookup 0).isSome && (ContextMcast.sendDataPackets 16384 (fun _ _ => true) [0] c).any
          fun r : Int × ContextMcast × List (Nat × List Nat) => decide (resentOf r.2.2 0 = []))) (by decide +kernel)
    obtain ⟨hok, ht⟩ := Bool.and_eq_true_iff.1 ht
    obtain ⟨he, ht⟩ := Bool.and_eq_true_iff.1 ht
    obtain ⟨e, he⟩ := Option.isSome_iff_exists.1 he
    obtain ⟨⟨ret, c', log⟩, hs, hres⟩ := (Option.any_eq_true _ _).1 ht
    exact ⟨c, e, ⟨c0, h0, hrun⟩, he, ((backoff_stored_iff _).2 _ c c' 16384 [0] _ ret log 0 e ⟨c0, h0, hrun⟩
      (of_decide_eq_true hok) hs he).1 fun hne => absurd (of_decide_eq_true hres) hne⟩

end RapidTransfer
