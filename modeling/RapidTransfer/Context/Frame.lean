/-
What the operations common to both contexts change, and what they leave alone. `Keeps` is what every
operation but the creation of a session respects of a session entry: its queue pointers, the packet
its ACK handle owns, and `last_send_ts`. Each operation has one lemma that says everything it can do.
-/
import RapidTransfer.Context.Core

namespace RapidTransfer

/-- The entry's pointers and the packet of its ACK handle are untouched. -/
structure SessionInfo.Keeps (e e' : SessionInfo) : Prop where
  sendQueue : e'.sendQueue = e.sendQueue
  receiveQueue : e'.receiveQueue = e.receiveQueue
  mcastSendQueue : e'.mcastSendQueue = e.mcastSendQueue
  packetBuf : e'.ackHandle.packetBuf = e.ackHandle.packetBuf
  withGrh : e'.ackHandle.withGrh = e.ackHandle.withGrh
  dataBuf : e'.ackHandle.dataBuf = e.ackHandle.dataBuf
  lastSendTs : e'.lastSendTs = e.lastSendTs

theorem SessionInfo.Keeps.refl (e : SessionInfo) : e.Keeps e := ⟨rfl, rfl, rfl, rfl, rfl, rfl, rfl⟩

theorem SessionInfo.Keeps.trans {a b c : SessionInfo} (h : a.Keeps b) (h' : b.Keeps c) : a.Keeps c :=
  ⟨h'.1.trans h.1, h'.2.trans h.2, h'.3.trans h.3, h'.4.trans h.4, h'.5.trans h.5, h'.6.trans h.6, h'.7.trans h.7⟩

namespace Core

/-- The same sessions, each entry kept. -/
structure SessionsKept (c c' : Core) : Prop where
  old : ∀ sid e, c.activeSessionMap.lookup sid = some e → ∃ e', c'.activeSessionMap.lookup sid = some e' ∧ e.Keeps e'
  new : ∀ sid, c.activeSessionMap.lookup sid = none → c'.activeSessionMap.lookup sid = none

namespace SessionsKept

variable {c c' c'' : Core}

theorem of_eq (h : c'.activeSessionMap = c.activeSessionMap) : SessionsKept c c' :=
  ⟨fun _ e he => ⟨e, by rw [h]; exact he, .refl e⟩, fun _ hn => by rw [h]; exact hn⟩

theorem trans (h : SessionsKept c c') (h' : SessionsKept c' c'') : SessionsKept c c'' := by
  refine ⟨fun sid e he => ?_, fun sid hn => h'.new sid (h.new sid hn)⟩
  obtain ⟨e', he', hk⟩ := h.old sid e he
  obtain ⟨e'', he'', hk'⟩ := h'.old sid e' he'
  exact ⟨e'', he'', hk.trans hk'⟩

/-- Every entry comes from one that it keeps. -/
theorem back (h : SessionsKept c c') {sid : Nat} {e' : SessionInfo} (he' : c'.activeSessionMap.lookup sid = some e') :
    ∃ e, c.activeSessionMap.lookup sid = some e ∧ e.Keeps e' := by
  cases hl : c.activeSessionMap.lookup sid with
  | none => rw [h.new sid hl] at he'; cases he'
  | some e =>
    obtain ⟨e'', he'', hk⟩ := h.old sid e hl
    rw [he''] at he'; cases he'
    exact ⟨e, rfl, hk⟩

end SessionsKept

@[simp] theorem lookup_setSession (c : Core) (sid : Nat) (e : SessionInfo) (k : Nat) :
    (c.setSession sid e).activeSessionMap.lookup k = if k = sid then some e else c.activeSessionMap.lookup k := by
  unfold setSession
  by_cases hk : k = sid
  · subst hk; simp
  · rw [if_neg hk]; exact AList.lookup_insert_ne hk

theorem sessionsKept_setSession {c c' : Core} (hm : c'.activeSessionMap = c.activeSessionMap) {sid : Nat}
    {e e' : SessionInfo} (he : c.activeSessionMap.lookup sid = some e) (hk : e.Keeps e') :
    SessionsKept c (c'.setSession sid e') := by
  refine ⟨fun k x hx => ?_, fun k hn => ?_⟩
  · rw [lookup_setSession, hm]
    by_cases hks : k = sid
    · subst hks; rw [he] at hx; cases hx
      exact ⟨e', by simp, hk⟩
    · exact ⟨x, by rw [if_neg hks]; exact hx, .refl x⟩
  · rw [lookup_setSession, hm, if_neg (by rintro rfl; rw [he] at hn; cases hn)]
    exact hn

/-! ## Sessions and tasks -/

/-- The entry of a session that was created in full. -/
def freshSession (raw : PacketHandle) (sid : Nat) (h : PacketHandle) : SessionInfo :=
  { SessionInfo.construct raw with
    ackHandle := h, sendQueue := some sid, receiveQueue := some sid, mcastSendQueue := some sid }

/-- Everything `openSession` can do. -/
theorem openSession_cases {c c' : Core} {sid : Nat} {ret : Int} (h : c.openSession sid = some (ret, c')) :
    (∃ e, c.activeSessionMap.lookup sid = some e ∧ ret = 0 ∧ c' = c) ∨
    (c.activeSessionMap.lookup sid = none ∧ c.packetManager.pool.freeBuffers = [] ∧ ret = -1 ∧
      c' = c.setSession sid (SessionInfo.construct c.packetManager.raw)) ∨
    (∃ slot pool mgr, c.activeSessionMap.lookup sid = none ∧ c.packetManager.pool.freeBuffers = slot :: pool ∧
      PacketManager.setup { c.packetManager with pool := ⟨pool⟩ } sid = some mgr ∧ ret = 0 ∧
      c' = { c with packetManager := mgr }.setSession sid
        (freshSession c.packetManager.raw sid (PacketHandle.setRawPacket (some slot) false))) := by
  unfold openSession at h
  split at h
  · rename_i e he; cases h; exact .inl ⟨e, he, rfl, rfl⟩
  · rename_i hn
    simp only at h
    split at h
    · rename_i ha
      cases h
      exact .inr (.inl ⟨hn, PacketBufferPool.allocatePacket_eq_none.1 ha, rfl, rfl⟩)
    · rename_i hd pool ha
      obtain ⟨mgr, hs, he⟩ := Option.map_eq_some_iff.1 h
      cases he
      unfold PacketBufferPool.allocatePacket at ha
      split at ha
      · cases ha
      · rename_i slot rest hf
        cases ha
        exact .inr (.inr ⟨slot, rest, mgr, hn, hf, hs, rfl, rfl⟩)

theorem openSession_frame {c c' : Core} {sid : Nat} {ret : Int} (h : c.openSession sid = some (ret, c')) :
    c'.controller = c.controller ∧ c'.recvRto = c.recvRto := by
  obtain ⟨x, -, -, rfl⟩ | ⟨-, -, -, rfl⟩ | ⟨slot, pool, mgr, -, -, -, -, rfl⟩ := openSession_cases h
  · exact ⟨rfl, rfl⟩
  · exact ⟨rfl, rfl⟩
  · exact ⟨rfl, rfl⟩

@[simp] theorem addTask_snd (c : Core) (t : Task) : (c.addTask t).2 =
    { c with
      nextTaskId := (c.nextTaskId + 1) % 2 ^ 32
      taskMap := Function.update c.taskMap c.nextTaskId (some t) } := rfl

/-- A push that was accepted gets a task, a refused one does not. -/
def Pushed (c : Core) (mgr : PacketManager) (ret : Int) (t : Task) (c' : Core) : Prop :=
  (ret = 0 ∧ c' = { c with packetManager := mgr, nextTaskId := (c.nextTaskId + 1) % 2 ^ 32
                           taskMap := Function.update c.taskMap c.nextTaskId (some t) }) ∨
    (ret ≠ 0 ∧ c' = { c with packetManager := mgr })

theorem pushSend_some {c c' : Core} {sid : Nat} {bufs : List Buffer} {r : Int}
    (h : c.pushSend sid bufs = some (r, c')) :
    ∃ e ptr q ret lastSn q' pool, c.activeSessionMap.lookup sid = some e ∧ e.sendQueue = some ptr ∧
      c.packetManager.sendQueue ptr = some q ∧ q.push bufs c.packetManager.pool = some (ret, lastSn, q', pool) ∧
      c.Pushed ({ c.packetManager with pool := pool }.setSendQueue ptr q') ret ⟨sid, lastSn, true, ptr⟩ c' := by
  unfold pushSend at h
  split at h
  · cases h
  · rename_i ptr hptr
    obtain ⟨e, he, hp⟩ := Option.bind_eq_some_iff.1 hptr
    split at h
    · cases h
    · rename_i q hq
      split at h
      · cases h
      · rename_i ret lastSn q' pool hpush
        refine ⟨e, ptr, q, ret, lastSn, q', pool, he, hp, hq, hpush, ?_⟩
        simp only [Option.some.injEq] at h
        split at h
        · rename_i h0; exact .inl ⟨h0, (congrArg Prod.snd h).symm⟩
        · rename_i h0; cases h; exact .inr ⟨h0, rfl⟩

theorem pushMcastSend_some {c c' : Core} {sid : Nat} {bufs : List Buffer} {r : Int}
    (h : c.pushMcastSend sid bufs = some (r, c')) :
    ∃ e ptr q ret lastSn q' pool, c.activeSessionMap.lookup sid = some e ∧ e.mcastSendQueue = some ptr ∧
      c.packetManager.mcastSendQueue ptr = some q ∧ q.push bufs c.packetManager.pool = some (ret, lastSn, q', pool) ∧
      c.Pushed ({ c.packetManager with pool := pool }.setMcastSendQueue ptr q') ret ⟨sid, lastSn, true, ptr⟩ c' := by
  unfold pushMcastSend at h
  split at h
  · cases h
  · rename_i ptr hptr
    obtain ⟨e, he, hp⟩ := Option.bind_eq_some_iff.1 hptr
    split at h
    · cases h
    · rename_i q hq
      split at h
      · cases h
      · rename_i ret lastSn q' pool hpush
        refine ⟨e, ptr, q, ret, lastSn, q', pool, he, hp, hq, hpush, ?_⟩
        simp only [Option.some.injEq] at h
        split at h
        · rename_i h0; exact .inl ⟨h0, (congrArg Prod.snd h).symm⟩
        · rename_i h0; cases h; exact .inr ⟨h0, rfl⟩

theorem pushReceive_some {c c' : Core} {sid : Nat} {bufs : List Buffer} {r : Int}
    (h : c.pushReceive sid bufs = some (r, c')) :
    ∃ e ptr q ret lastSn q', c.activeSessionMap.lookup sid = some e ∧ e.receiveQueue = some ptr ∧
      c.packetManager.receiveQueue ptr = some q ∧ q.push bufs = some (ret, lastSn, q') ∧
      c.Pushed (c.packetManager.setReceiveQueue ptr q') ret ⟨sid, lastSn, false, ptr⟩ c' := by
  unfold pushReceive at h
  split at h
  · cases h
  · rename_i ptr hptr
    obtain ⟨e, he, hp⟩ := Option.bind_eq_some_iff.1 hptr
    split at h
    · cases h
    · rename_i q hq
      split at h
      · cases h
      · rename_i ret lastSn q' hpush
        refine ⟨e, ptr, q, ret, lastSn, q', he, hp, hq, hpush, ?_⟩
        simp only [Option.some.injEq] at h
        split at h
        · rename_i h0; exact .inl ⟨h0, (congrArg Prod.snd h).symm⟩
        · rename_i h0; cases h; exact .inr ⟨h0, rfl⟩

theorem Pushed.activeSessionMap {c c' : Core} {mgr : PacketManager} {ret : Int} {t : Task} (h : c.Pushed mgr ret t c') :
    c'.activeSessionMap = c.activeSessionMap := by
  obtain ⟨-, rfl⟩ | ⟨-, rfl⟩ := h <;> rfl

theorem Pushed.packetManager {c c' : Core} {mgr : PacketManager} {ret : Int} {t : Task} (h : c.Pushed mgr ret t c') :
    c'.packetManager = mgr := by
  obtain ⟨-, rfl⟩ | ⟨-, rfl⟩ := h <;> rfl

theorem Pushed.controller {c c' : Core} {mgr : PacketManager} {ret : Int} {t : Task} (h : c.Pushed mgr ret t c') :
    c'.controller = c.controller := by
  obtain ⟨-, rfl⟩ | ⟨-, rfl⟩ := h <;> rfl

theorem Pushed.recvRto {c c' : Core} {mgr : PacketManager} {ret : Int} {t : Task} (h : c.Pushed mgr ret t c') :
    c'.recvRto = c.recvRto := by
  obtain ⟨-, rfl⟩ | ⟨-, rfl⟩ := h <;> rfl

theorem freeTask_cases (c : Core) (id : Nat) :
    (c.freeTask id).2 = c ∨ (c.freeTask id).2 = { c with taskMap := Function.update c.taskMap id none } := by
  unfold freeTask
  split
  · exact .inl rfl
  · exact .inr rfl

/-! ## Connections -/

theorem setupConnection_cases (c : Core) (p : String) (g : BitVec 128) (Q ext : List Nat) (created : Bool) :
    ∃ st, st = (c.endpointStore.setupConnection p Q created).2 ∧
      ((c.setupConnection p g Q ext created).2 = { c with endpointStore := st } ∨
        p ≠ "" ∧ (c.setupConnection p g Q ext created).2 =
          { c with endpointStore := st, controller := c.controller.registerNode p g ext }) := by
  refine ⟨_, rfl, ?_⟩
  unfold setupConnection
  simp only
  split
  · exact .inl rfl
  · rename_i hret
    refine .inr ⟨?_, rfl⟩
    rintro rfl
    simp [EndpointStore.setupConnection, EndpointStore.getOrCreateEndpoint] at hret

theorem getOrCreateEndpoint_snd (c : Core) (sid : Nat) :
    ∃ st, (c.getOrCreateEndpoint sid).2 = { c with endpointStore := st } ∧
      st.outstanding = c.endpointStore.outstanding := by
  unfold getOrCreateEndpoint
  split
  · exact ⟨c.endpointStore, rfl, rfl⟩
  · rename_i name _
    exact ⟨_, rfl, c.endpointStore.getOrCreateEndpoint_outstanding name⟩

/-! ## Acknowledgements -/

theorem ackHeader_keeps (e : SessionInfo) (sid wnd n : Nat) (q : ReceiveQueue) :
    e.Keeps { e with ackHandle := ackHeader sid wnd q e.ackHandle, ackPackets := n } :=
  ⟨rfl, rfl, rfl, rfl, rfl, rfl, rfl⟩

/-- The ways through `postAck`: nothing to post, no endpoint to post to, or a post, which counts if it returned one. -/
theorem postAck_cases {wnd : ReceiveQueue → Nat} {one : Bool} {c c' c1 : Core} {sid : Nat} {e : SessionInfo}
    {q : ReceiveQueue} {p : Post} {ret : Int}
    (hc1 : c.setSession sid { e with ackHandle := ackHeader sid (wnd q) q e.ackHandle } = c1)
    (h : postAck wnd one c sid e q p = some (ret, c')) :
    (ret = -1 ∧ c' = c1) ∨
    (ret = -1 ∧ c' = (c1.getOrCreateEndpoint sid).2) ∨
    (e.ackHandle.packetBuf.isSome = true ∧ ∃ ep r st,
      (c1.getOrCreateEndpoint sid).2.endpointStore.postSendRequest ep [⟨some sid⟩] p = some (r, st) ∧
      ((ret = -1 ∧ c' = { (c1.getOrCreateEndpoint sid).2 with endpointStore := st }) ∨
        (ret = 0 ∧ c' = { (c1.getOrCreateEndpoint sid).2 with endpointStore := st }.setSession sid
          { e with ackHandle := ackHeader sid (wnd q) q e.ackHandle, ackPackets := e.recvPackets }))) := by
  unfold postAck at h
  simp only [hc1] at h
  split at h
  · cases h
    exact .inl ⟨rfl, rfl⟩
  · rename_i hser
    split at h
    · cases h
      exact .inl ⟨rfl, rfl⟩
    · split at h
      · rename_i hg
        rw [hg]
        cases h
        exact .inr (.inl ⟨rfl, rfl⟩)
      · rename_i ep c2 hg
        rw [hg]
        have hbuf : (ackHeader sid (wnd q) q e.ackHandle).packetBuf.isSome = true :=
          PacketHandle.packetBuf_of_serialize hser
        split at h
        · cases h
        · rename_i r st hp
          refine .inr (.inr ⟨hbuf, ep, r, st, hp, ?_⟩)
          split at h
          · cases h
            exact .inl ⟨rfl, rfl⟩
          · cases h
            exact .inr ⟨rfl, rfl⟩

/-- Everything the post of an ACK can do: the handle is marked, and the endpoint store changes. The
session counts as acknowledged only if the post returned one. -/
theorem postAck_some {wnd : ReceiveQueue → Nat} {one : Bool} {c c' : Core} {sid : Nat} {e : SessionInfo}
    {q : ReceiveQueue} {p : Post} {ret : Int} (h : postAck wnd one c sid e q p = some (ret, c')) :
    ∃ st n, c' = { c with endpointStore := st }.setSession sid
        { e with ackHandle := ackHeader sid (wnd q) q e.ackHandle, ackPackets := n } ∧
      ((ret = -1 ∧ n = e.ackPackets) ∨ (ret = 0 ∧ n = e.recvPackets)) := by
  obtain ⟨st0, hst0, -⟩ := getOrCreateEndpoint_snd (c.setSession sid
    { e with ackHandle := ackHeader sid (wnd q) q e.ackHandle }) sid
  obtain ⟨rfl, rfl⟩ | ⟨rfl, rfl⟩ | ⟨-, ep, r, st, -, ⟨rfl, rfl⟩ | ⟨rfl, rfl⟩⟩ := postAck_cases rfl h
  · exact ⟨c.endpointStore, _, rfl, .inl ⟨rfl, rfl⟩⟩
  · exact ⟨st0, _, hst0, .inl ⟨rfl, rfl⟩⟩
  · rw [hst0]
    exact ⟨st, _, rfl, .inl ⟨rfl, rfl⟩⟩
  · rw [hst0]
    refine ⟨st, e.recvPackets, ?_, .inr ⟨rfl, rfl⟩⟩
    simp [setSession, AList.insert_insert]

/-- Every post of `sendAcks` meets `good` in the state it is made in. -/
def acksAll (wnd : ReceiveQueue → Nat) (one : Bool) (good : Core → Nat → Post → Bool) : List (Nat × Post) → Core → Bool
  | [], _ => true
  | (sid, p) :: rest, c =>
    match c.activeSessionMap.lookup sid with
    | none => true
    | some e =>
      match e.receiveQueue.bind c.packetManager.receiveQueue with
      | none => true
      | some q =>
        if owesAck e then
          good c sid p &&
            match postAck wnd one c sid e q p with
            | none => true
            | some (ret, c) => if ret ≠ 0 then true else acksAll wnd one good rest c
        else acksAll wnd one good rest c

theorem acksAll_true (wnd : ReceiveQueue → Nat) (one : Bool) : ∀ (order : List (Nat × Post)) (c : Core),
    acksAll wnd one (fun _ _ _ => true) order c = true
  | [], _ => rfl
  | (sid, p) :: rest, c => by
    unfold acksAll
    split
    · rfl
    · split
      · rfl
      · split
        · split
          · rfl
          · split
            · rfl
            · exact acksAll_true wnd one rest _
        · exact acksAll_true wnd one rest c

/-- The invariant rule of `sendAcks`. -/
theorem sendAcks_rule {wnd : ReceiveQueue → Nat} {one : Bool} {P : Core → Prop} {good : Core → Nat → Post → Bool}
    (hpost : ∀ c sid e q p ret c', P c → c.activeSessionMap.lookup sid = some e →
      e.receiveQueue.bind c.packetManager.receiveQueue = some q → owesAck e = true → good c sid p = true →
      postAck wnd one c sid e q p = some (ret, c') → P c') :
    ∀ {order : List (Nat × Post)} {c c' : Core} {ret : Int}, P c → acksAll wnd one good order c = true →
      sendAcks wnd one order c = some (ret, c') → P c'
  | [], c, c', ret, hP, _, h => by cases h; exact hP
  | (sid, p) :: rest, c, c', ret, hP, hall, h => by
    unfold sendAcks at h
    unfold acksAll at hall
    split at h
    · cases h
    · rename_i e he
      rw [he] at hall
      simp only at hall
      split at h
      · cases h
      · rename_i q hq
        rw [hq] at hall
        simp only at hall
        split at h
        · rename_i how
          rw [if_pos how, Bool.and_eq_true] at hall
          split at h
          · cases h
          · rename_i r c1 hp
            have hP1 := hpost c sid e q p r c1 hP he hq how hall.1 hp
            have hrest := hall.2
            rw [hp] at hrest
            simp only at hrest
            split at h
            · cases h; exact hP1
            · rename_i hr
              rw [if_neg hr] at hrest
              exact sendAcks_rule hpost hP1 hrest h
        · rename_i how
          rw [if_neg how] at hall
          exact sendAcks_rule hpost hP hall h

/-- `sendAcks` changes session entries and the endpoint store only, and keeps the sessions. -/
theorem sendAcks_frame {wnd : ReceiveQueue → Nat} {one : Bool} {order : List (Nat × Post)} {c c' : Core} {ret : Int}
    (h : sendAcks wnd one order c = some (ret, c')) :
    SessionsKept c c' ∧ ∃ st m, c' = { c with endpointStore := st, activeSessionMap := m } := by
  refine sendAcks_rule
    (P := fun x => SessionsKept c x ∧ ∃ st m, x = { c with endpointStore := st, activeSessionMap := m })
    ?_ ⟨.of_eq rfl, _, _, rfl⟩ (acksAll_true wnd one order c) h
  rintro x sid e q p r x' ⟨hk, st, m, rfl⟩ he - - - hp
  obtain ⟨st', n, rfl, -⟩ := postAck_some hp
  refine ⟨hk.trans ?_, st', _, rfl⟩
  exact sessionsKept_setSession (by rfl) he (ackHeader_keeps e _ _ n q)

/-- Everything the completion of a send can do. -/
theorem completeSend_cases (c : Core) (r : Nat × Request) :
    c.completeSend r = { c with endpointStore := c.endpointStore.complete r } ∨
    ∃ sid e, r.2.context = some sid ∧ c.activeSessionMap.lookup sid = some e ∧ e.ackHandle.cmd = pktCmdAck ∧
      c.completeSend r = { c with endpointStore := c.endpointStore.complete r }.setSession sid
        { e with ackHandle := { e.ackHandle with inflight := false } } := by
  unfold completeSend
  simp only
  split
  · exact .inl rfl
  · rename_i sid hc
    split
    · exact .inl rfl
    · rename_i e he
      split
      · rename_i hcmd; exact .inr ⟨sid, e, hc, he, hcmd, rfl⟩
      · exact .inl rfl

theorem completeSend_frame (c : Core) (r : Nat × Request) :
    SessionsKept c (c.completeSend r) ∧
    ∃ st m, c.completeSend r = { c with endpointStore := st, activeSessionMap := m } := by
  obtain h | ⟨sid, e, -, he, -, h⟩ := completeSend_cases c r
  · rw [h]; exact ⟨.of_eq rfl, _, _, rfl⟩
  · rw [h]; exact ⟨sessionsKept_setSession (by rfl) he ⟨rfl, rfl, rfl, rfl, rfl, rfl, rfl⟩, _, _, rfl⟩

/-! ## Received packets -/

theorem receiveData_some {c c' : Core} {sid ptr : Nat} {e : SessionInfo} {q : ReceiveQueue} {p : Packet}
    (h : c.receiveData sid ptr e q p = some c') :
    ∃ q' mv mem, q.markCompleted p = some (q', mv) ∧
      c' = { c with packetManager := c.packetManager.setReceiveQueue ptr q', mem := mem }.setSession sid
        { e with recvPackets := e.recvPackets + 1 } := by
  unfold receiveData at h
  split at h
  · cases h
  · rename_i q' mv hm; cases h; exact ⟨q', mv, _, hm, rfl⟩

/-- Packets have a size, so nothing is divided by zero. -/
theorem onSuccess_isSome {mtuSize : Nat} (h : mtuSize ≠ 0) (rwnd : Nat) (e : SessionInfo) :
    ∃ e', onSuccess mtuSize rwnd e = some e' := by
  have hgrow : ∃ x, growWindow mtuSize e = some x := by
    unfold growWindow
    split
    · exact ⟨_, rfl⟩
    · simp only
      rw [if_neg (by omega)]
      split
      · exact ⟨_, rfl⟩
      · exact ⟨_, rfl⟩
  obtain ⟨x, hx⟩ := hgrow
  exact ⟨_, by rw [onSuccess, hx]; rfl⟩

/-- The window update touches the window members only. -/
theorem onSuccess_some {mtuSize rwnd : Nat} {e e' : SessionInfo} (h : onSuccess mtuSize rwnd e = some e') :
    ∃ cwnd incr, e' = { e with cwnd := cwnd, incr := incr, rwnd := rwnd } := by
  unfold onSuccess growWindow at h
  obtain ⟨x, hx, rfl⟩ := Option.map_eq_some_iff.1 h
  split at hx
  · cases hx; exact ⟨_, _, rfl⟩
  · simp only at hx
    split at hx
    · cases hx
    · split at hx
      · split at hx
        · cases hx
        · cases hx; exact ⟨_, _, rfl⟩
      · cases hx; exact ⟨_, _, rfl⟩

end Core

/-! ## Transmissions -/

/-- A ring in which only send times and the window have changed. -/
structure SendRing.Restamped (r r' : SendRing) : Prop where
  head : r'.head = r.head
  queueCapacity : r'.queueCapacity = r.queueCapacity
  session : r'.session = r.session
  secondaryQueue : r'.secondaryQueue = r.secondaryQueue
  handle : ∀ k, ∃ ts, r'.handle k = { r.handle k with ts := ts }
  wndSize : r'.wndSize = r.wndSize ∨ ∃ w, r'.wndSize = (r.setWndSize w).wndSize

namespace SendRing.Restamped

variable {r r' r'' : SendRing}

theorem refl (r : SendRing) : r.Restamped r := ⟨rfl, rfl, rfl, rfl, fun k => ⟨(r.handle k).ts, rfl⟩, .inl rfl⟩

theorem setTs (h : r.Restamped r') (i ts : Nat) : r.Restamped (r'.setTs i ts) := by
  refine ⟨h.head, h.queueCapacity, h.session, h.secondaryQueue, fun k => ?_, h.wndSize⟩
  obtain ⟨t, ht⟩ := h.handle k
  by_cases hk : k = i % r'.queueCapacity
  · subst hk
    exact ⟨ts, by simp only [SendRing.setTs, Ring.set_same, SendRing.getMutableEntry, ht]⟩
  · exact ⟨t, by simp only [SendRing.setTs]; rw [Ring.set_of_ne _ _ hk, ht]⟩

theorem setWndSize (h : r.Restamped r') (w : Nat) : r.Restamped (r'.setWndSize w) :=
  ⟨h.head, h.queueCapacity, h.session, h.secondaryQueue, h.handle,
    .inr ⟨w, by simp only [SendRing.setWndSize, h.queueCapacity]⟩⟩

theorem followWnd (h : r.Restamped r') (w : Nat) : r.Restamped (Core.followWnd r' w) := by
  unfold Core.followWnd
  split
  · exact h.setWndSize w
  · exact h

end SendRing.Restamped

end RapidTransfer
