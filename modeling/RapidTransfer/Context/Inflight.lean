/-
The `inflight` flag of the ACK handles. It is set before the ACK is serialised, looked up and posted,
and cleared by the completion only: it tells whether an ACK is on its way as long as every ACK that is
attempted is taken by a queue pair. `flag_tracks_requests` says so for all runs of both contexts.
-/
import RapidTransfer.Context.Ack

namespace RapidTransfer

namespace Core

/-- The outstanding requests whose context is the ACK handle of the session. -/
def ackRequests (c : Core) (sid : Nat) : Nat :=
  c.endpointStore.outstanding.countP fun r => decide (r.2.context = some sid)

/-- The flag of every session is set exactly when one such request is outstanding. -/
def FlagTracks (c : Core) : Prop :=
  ∀ sid e, c.activeSessionMap.lookup sid = some e → (e.ackHandle.inflight = true ↔ c.ackRequests sid = 1)

/-- The peer's endpoint is connected, the queue pair that is drawn has room, and the verb takes the
request. -/
def canPost (c : Core) (sid : Nat) (p : Post) : Bool :=
  (((c.controller.peerNameRevMap (sid / 256)).filter (· ≠ "")).bind c.endpointStore.endpointMap).any (·.connected) &&
    (decide (c.endpointStore.sendWrDepth (p.qpPick % c.endpointStore.numQp) < c.endpointStore.maxWrDepth) &&
      decide (0 < p.accepted))

/-- A session that is opened finds a packet, or the flag of a handle without one happens to be clear. -/
def openSafe (c : Core) (session : Option Nat) : Bool :=
  session.all fun sid => (c.activeSessionMap.lookup sid).isSome || (!c.packetManager.pool.freeBuffers.isEmpty ||
    !c.packetManager.raw.inflight)

/-! ## One post -/

theorem getOrCreateEndpoint_of_canPost {c : Core} {sid : Nat} {p : Post} (h : canPost c sid p = true) :
    ∃ ep, c.getOrCreateEndpoint sid = (some ep, c) ∧ ep.connected = true := by
  obtain ⟨hep, -⟩ := Bool.and_eq_true_iff.1 h
  obtain ⟨ep, hb, hc⟩ := (Option.any_eq_true _ _).1 hep
  obtain ⟨name, hn, hm⟩ := Option.bind_eq_some_iff.1 hb
  obtain ⟨hrev, hne⟩ := Option.filter_eq_some_iff.1 hn
  have hne : name ≠ "" := by simpa using hne
  refine ⟨ep, ?_, hc⟩
  unfold Core.getOrCreateEndpoint EndpointStore.getOrCreateEndpoint
  rw [hrev]
  simp only [if_neg hne, hm]

/-- A single request that finds room is taken. -/
theorem postSendRequest_of_room {st st' : EndpointStore} {ep : Endpoint} {r : Request} {p : Post} {ret : Int}
    (hc : ep.connected = true) (hroom : st.sendWrDepth (p.qpPick % st.numQp) < st.maxWrDepth) (ha : 0 < p.accepted)
    (h : st.postSendRequest ep [r] p = some (ret, st')) :
    ret = 1 ∧ st'.outstanding = st.outstanding ++ [(p.qpPick % st.numQp, r)] := by
  unfold EndpointStore.postSendRequest at h
  rw [hc] at h
  simp only [Bool.not_true, Bool.false_eq_true, if_false] at h
  split at h
  · cases h
  · have hwr : min (st.maxWrDepth - st.sendWrDepth (p.qpPick % st.numQp)) (([r] : List Request).length : Int) = 1 := by
      simp only [List.length_singleton, Nat.cast_one]; omega
    unfold EndpointStore.post at h
    simp only [hwr] at h
    have hq : min p.accepted (Int.toNat 1) = 1 := by simp only [Int.toNat_one]; omega
    rw [hq] at h
    cases h
    exact ⟨rfl, rfl⟩

/-- An ACK that can be posted is: its request is outstanding and the session has no ACK left to send. -/
theorem postAck_of_canPost {wnd : ReceiveQueue → Nat} {one : Bool} {c c' : Core} {sid : Nat} {e : SessionInfo}
    {q : ReceiveQueue} {p : Post} {ret : Int} (hbuf : e.ackHandle.packetBuf.isSome = true)
    (hgrh : e.ackHandle.withGrh = false) (hdata : e.ackHandle.dataBuf = 0) (hc : canPost c sid p = true)
    (h : postAck wnd one c sid e q p = some (ret, c')) :
    ret = 0 ∧ ∃ st, c' = { c with endpointStore := st }.setSession sid
        { e with ackHandle := ackHeader sid (wnd q) q e.ackHandle, ackPackets := e.recvPackets } ∧
      ∃ qp, st.outstanding = c.endpointStore.outstanding ++ [(qp, ⟨some sid⟩)] := by
  obtain ⟨slot, hslot⟩ := Option.isSome_iff_exists.1 hbuf
  have hser : ∃ slices imm, (ackHeader sid (wnd q) q e.ackHandle).serialize = some (slices, imm) ∧
      slices.length = 1 := by
    simp [PacketHandle.serialize, ackHeader, hslot, hgrh, hdata]
  obtain ⟨slices, imm, hser, hone⟩ := hser
  have hc' : canPost (c.setSession sid { e with ackHandle := ackHeader sid (wnd q) q e.ackHandle }) sid p = true := hc
  obtain ⟨ep, hep, hcon⟩ := getOrCreateEndpoint_of_canPost hc'
  unfold postAck at h
  simp only [hser, hone, ne_eq, not_true_eq_false, and_false, if_false, hep] at h
  split at h
  · cases h
  · rename_i r st hp
    obtain ⟨-, hd⟩ := Bool.and_eq_true_iff.1 hc
    obtain ⟨hroom, ha⟩ := Bool.and_eq_true_iff.1 hd
    obtain ⟨rfl, ho⟩ := postSendRequest_of_room hcon (of_decide_eq_true hroom) (of_decide_eq_true ha) hp
    rw [if_neg (by decide)] at h
    cases h
    exact ⟨rfl, st, by simp [setSession, AList.insert_insert], _, ho⟩

/-- The request of an ACK counts for its session. -/
theorem ackRequests_posted {c : Core} {st : EndpointStore} {qp sid : Nat}
    (ho : st.outstanding = c.endpointStore.outstanding ++ [(qp, ⟨some sid⟩)]) (k : Nat) :
    ackRequests { c with endpointStore := st } k = c.ackRequests k + if k = sid then 1 else 0 := by
  unfold ackRequests
  rw [ho, List.countP_append, List.countP_singleton]
  simp only [Option.some.injEq, decide_eq_true_eq, eq_comm (a := sid)]

/-! ## The invariant -/

/-- The entry's handle can be posted, and its flag agrees with the requests outstanding. -/
structure HandleTracked (c : Core) (sid : Nat) (e : SessionInfo) : Prop where
  count : c.ackRequests sid = e.ackHandle.inflight.toNat
  cmd : e.ackHandle.inflight = true → e.ackHandle.cmd = pktCmdAck
  usable : e.receiveQueue ≠ none → e.ackHandle.packetBuf.isSome = true ∧ e.ackHandle.withGrh = false ∧
    e.ackHandle.dataBuf = 0

structure Tracked (c : Core) : Prop where
  entries : ∀ sid e, c.activeSessionMap.lookup sid = some e → HandleTracked c sid e
  others : ∀ sid, c.activeSessionMap.lookup sid = none → c.ackRequests sid = 0

theorem Tracked.flagTracks {c : Core} (h : Tracked c) : FlagTracks c := by
  intro sid e he
  rw [(h.entries sid e he).count]
  cases e.ackHandle.inflight <;> simp

theorem ne_none_of_queue {mgr : PacketManager} {e : SessionInfo} {q : ReceiveQueue}
    (hq : e.receiveQueue.bind mgr.receiveQueue = some q) : e.receiveQueue ≠ none := by
  intro hn
  rw [hn] at hq
  cases hq

theorem idle_of_owesAck {e : SessionInfo} (h : owesAck e = true) : e.ackHandle.inflight = false := by
  obtain ⟨-, hi⟩ := Bool.and_eq_true_iff.1 h
  simpa using hi

/-- A change of one entry, with the requests of the other sessions as they were. -/
theorem Tracked.set {c c' : Core} {x : SessionInfo} (h : Tracked c) (sid : Nat)
    (hm : ∀ k, c'.activeSessionMap.lookup k = if k = sid then some x else c.activeSessionMap.lookup k)
    (ho : ∀ k, k ≠ sid → c'.ackRequests k = c.ackRequests k) (hx : HandleTracked c' sid x) : Tracked c' := by
  constructor
  · intro k e he
    rw [hm] at he
    split at he
    · rename_i hk; cases he; rw [hk]; exact hx
    · rename_i hk
      have := h.entries k e he
      exact ⟨(ho k hk).trans this.count, this.cmd, this.usable⟩
  · intro k hn
    rw [hm] at hn
    split at hn
    · cases hn
    · rename_i hk; rw [ho k hk]; exact h.others k hn

theorem Quiet.ackRequests {c c' : Core} (hq : Quiet c c') (sid : Nat) : c'.ackRequests sid = c.ackRequests sid := by
  obtain ⟨ds, ho, hds⟩ := hq.posted
  have h0 : ds.countP (fun r => decide (r.2.context = some sid)) = 0 :=
    List.countP_eq_zero.2 fun d hd => by simp [hds d hd]
  unfold Core.ackRequests
  rw [ho, List.countP_append, h0, Nat.add_zero]

theorem Tracked.quiet {c c' : Core} (h : Tracked c) (hq : Quiet c c') : Tracked c' := by
  have hcount := hq.ackRequests
  constructor
  · intro sid e' he'
    obtain ⟨e, he, hs⟩ := hq.back he'
    obtain ⟨h1, h2, h3⟩ := h.entries sid e he
    rw [← hs.ackHandle] at h1 h2 h3
    rw [← hs.receiveQueue] at h3
    exact ⟨(hcount sid).trans h1, h2, h3⟩
  · intro sid hn
    rw [hcount]
    cases hl : c.activeSessionMap.lookup sid with
    | none => exact h.others sid hl
    | some e =>
      obtain ⟨e', he', -⟩ := hq.old sid e hl
      rw [hn] at he'; cases he'

theorem Tracked.opened {c c' : Core} {sid : Nat} {ret : Int} (h : Tracked c) (hsafe : openSafe c (some sid) = true)
    (ho : c.openSession sid = some (ret, c')) : Tracked c' := by
  obtain ⟨x, -, -, rfl⟩ | ⟨hn, hp, -, rfl⟩ | ⟨slot, pool, mgr, hn, -, -, -, rfl⟩ := openSession_cases ho
  · exact h
  · -- without a packet the handle keeps what its memory held
    have hraw : c.packetManager.raw.inflight = false := by simpa [openSafe, hn, hp] using hsafe
    refine h.set sid (fun k => lookup_setSession ..) (fun _ _ => rfl) ⟨?_, ?_, ?_⟩
    · refine (h.others sid hn).trans ?_
      simp [SessionInfo.construct, PacketHandle.construct, hraw]
    · simp [SessionInfo.construct, PacketHandle.construct, hraw]
    · simp [SessionInfo.construct]
  · refine h.set sid (fun k => lookup_setSession ..) (fun _ _ => rfl) ⟨?_, ?_, ?_⟩
    · exact h.others sid hn
    · simp [freshSession, PacketHandle.setRawPacket]
    · simp [freshSession, PacketHandle.setRawPacket]

theorem Tracked.post {wnd : ReceiveQueue → Nat} {one : Bool} {c c' : Core} {sid : Nat} {e : SessionInfo}
    {q : ReceiveQueue} {p : Post} {ret : Int} (h : Tracked c) (he : c.activeSessionMap.lookup sid = some e)
    (hq : e.receiveQueue.bind c.packetManager.receiveQueue = some q) (howes : owesAck e = true)
    (hg : canPost c sid p = true) (hp : postAck wnd one c sid e q p = some (ret, c')) : Tracked c' := by
  have hh := h.entries sid e he
  obtain ⟨hbuf, hgrh, hdata⟩ := hh.usable (ne_none_of_queue hq)
  obtain ⟨-, st, rfl, qp, ho⟩ := postAck_of_canPost hbuf hgrh hdata hg hp
  have hidle := idle_of_owesAck howes
  have hcount := ackRequests_posted ho
  refine h.set sid (fun k => lookup_setSession ..) (fun k hk => ?_) ⟨?_, fun _ => rfl, fun _ => ?_⟩
  · exact (hcount k).trans (by rw [if_neg hk, Nat.add_zero])
  · refine (hcount sid).trans ?_
    rw [if_pos rfl, hh.count, hidle]
    rfl
  · exact ⟨hbuf, hgrh, hdata⟩

/-- A completion takes one request away. -/
theorem ackRequests_complete {c : Core} {r : Nat × Request} (hr : r ∈ c.endpointStore.outstanding) (sid : Nat) :
    c.ackRequests sid = ackRequests { c with endpointStore := c.endpointStore.complete r } sid +
      if r.2.context = some sid then 1 else 0 := by
  unfold ackRequests EndpointStore.complete
  rw [(List.perm_cons_erase hr).countP_eq, List.countP_cons]
  simp

theorem Tracked.complete {c : Core} {r : Nat × Request} (h : Tracked c) (hr : r ∈ c.endpointStore.outstanding) :
    Tracked (c.completeSend r) := by
  have hcount := ackRequests_complete hr
  cases hctx : r.2.context with
  | none =>
    have hc : c.completeSend r = { c with endpointStore := c.endpointStore.complete r } := by
      unfold completeSend; rw [hctx]
    rw [hc]
    have hsame : ∀ k, ackRequests { c with endpointStore := c.endpointStore.complete r } k = c.ackRequests k := by
      intro k; rw [hcount k, hctx]; simp
    constructor
    · intro k e he
      obtain ⟨h1, h2, h3⟩ := h.entries k e he
      exact ⟨(hsame k).trans h1, h2, h3⟩
    · exact fun k hn => (hsame k).trans (h.others k hn)
  | some sid =>
    -- the session of the request has an entry, whose flag is set
    have hone := hcount sid
    rw [hctx, if_pos rfl] at hone
    cases hl : c.activeSessionMap.lookup sid with
    | none => have := h.others sid hl; omega
    | some e =>
      have hh := h.entries sid e hl
      have hflag : e.ackHandle.inflight = true := by
        cases hi : e.ackHandle.inflight with
        | true => rfl
        | false => have := hh.count; rw [hi] at this; simp at this; omega
      have hc : c.completeSend r = { c with endpointStore := c.endpointStore.complete r }.setSession sid
          { e with ackHandle := { e.ackHandle with inflight := false } } := by
        unfold completeSend; simp only [hctx, hl, if_pos (hh.cmd hflag)]
      rw [hc]
      refine h.set sid (fun k => lookup_setSession ..) (fun k hk => ?_) ⟨?_, by simp, hh.usable⟩
      · refine Eq.trans ?_ (hcount k).symm
        rw [hctx, if_neg (fun hx => hk (Option.some.inj hx).symm)]
        rfl
      · have := hh.count
        rw [hflag] at this
        simp only [Bool.toNat_true] at this
        show ackRequests { c with endpointStore := c.endpointStore.complete r } sid = 0
        omega

theorem tracked_rule (wnd : ReceiveQueue → Nat) (one : Bool) :
    AckRule wnd one (fun c sid => openSafe c (some sid) = true) canPost Tracked where
  quiet h hq := h.quiet hq
  opened h hs ho := h.opened hs ho
  post h he hq ho hg hp := h.post he hq ho hg hp
  complete h hr := h.complete hr

end Core

/-! ## Runs -/

open RapidTransfer.Core

theorem Core.tracked_construct {rto : Nat} {cfg : Config} {c : Core} (h : Core.construct rto cfg = some c) :
    Tracked c := by
  have hm := construct_activeSessionMap h
  obtain ⟨r, -, rfl⟩ := Option.map_eq_some_iff.1 h
  constructor
  · intro sid e he; rw [hm] at he; simp at he
  · exact fun _ _ => rfl

/-- The event opens its session safely and every ACK it attempts can be posted. -/
def Context.AcksSafe (c : Core) (e : Context.Event) : Prop :=
  c.openSafe (Context.opens c e) = true ∧ Context.acksGood canPost c e = true

def ContextMcast.AcksSafe (c : ContextMcast) (e : ContextMcast.Event) : Prop :=
  c.toCore.openSafe (ContextMcast.opens c e) = true ∧ ContextMcast.acksGood canPost c e = true

instance (c : Core) (e : Context.Event) : Decidable (Context.AcksSafe c e) := inferInstanceAs (Decidable (_ ∧ _))

instance (c : ContextMcast) (e : ContextMcast.Event) : Decidable (ContextMcast.AcksSafe c e) :=
  inferInstanceAs (Decidable (_ ∧ _))

theorem ContextMcast.tracked_start {cfg : Config} {c : ContextMcast} (h : ContextMcast.start cfg = some c) :
    Tracked c.toCore := by
  obtain ⟨core, hcore, rfl⟩ := Option.map_eq_some_iff.1 h
  exact tracked_construct hcore

theorem ContextMcast.tracked_step {c c' : ContextMcast} {e : ContextMcast.Event} (h : Tracked c.toCore)
    (hok : ContextMcast.ok c e ∧ ContextMcast.AcksSafe c e) (hs : ContextMcast.step c e = some c') :
    Tracked c'.toCore :=
  ContextMcast.step_ack (tracked_rule _ _) h hok.1 (fun _ ho => ho ▸ hok.2.1) hok.2.2 hs

/-- In every run, of either context, in which every ACK that is attempted can be posted, the flags
tell which ACKs are outstanding. -/
theorem flag_tracks_requests (cfg : Config) :
    (∀ (c0 c : Core) (es : List Context.Event), Context.start cfg = some c0 →
      Runs.Run Context.step (fun x f => Context.ok x f ∧ Context.AcksSafe x f) c0 es c → c.FlagTracks) ∧
    (∀ (c0 c : ContextMcast) (es : List ContextMcast.Event), ContextMcast.start cfg = some c0 →
      Runs.Run ContextMcast.step (fun x f => ContextMcast.ok x f ∧ ContextMcast.AcksSafe x f) c0 es c →
      c.toCore.FlagTracks) := by
  constructor
  · intro c0 c es h0 hrun
    refine (hrun.invariant (P := Tracked) (tracked_construct h0) fun x f x' hx hok hs => ?_).flagTracks
    exact Context.step_ack (tracked_rule _ _) hx hok.1 (fun sid ho => ho ▸ hok.2.1) hok.2.2 hs
  · intro c0 c es h0 hrun
    exact (hrun.invariant (P := fun x => Tracked x.toCore) (ContextMcast.tracked_start h0)
      fun x f x' hx hok hs => ContextMcast.tracked_step hx hok hs).flagTracks

namespace ContextMcast

/-- A DATA packet with the first fragment, of two bytes. -/
def oneFragment : Arrival := ⟨7, 1, some 0, List.replicate (pktHdrSize + grhSize + 2) 0⟩

/-- The fragment arrives and its ACK is posted and completed. -/
def acknowledged (length : Nat) : List Event :=
  [.setupConnection "a" 7 [1] [1] true, .receive "a" [⟨100, length⟩], .arrive 0 oneFragment none,
   .sendAcks [(0, ⟨0, 1⟩)], .sent (0, ⟨some 0⟩)]

end ContextMcast

/-- Data fills the queue pair before the ACK is posted. -/
def fullQueuePair : List Context.Event :=
  [.setupConnection "a" 7 [1] [1] true, .receive "a" [⟨100, 2⟩], .send "a" [⟨200, 2⟩],
   .sendData 4096 [0] fun _ _ => ⟨0, 4⟩, .sendData 8192 [0] fun _ _ => ⟨0, 4⟩,
   .arrive 8192 ContextMcast.oneFragment, .sendAcks [(0, ⟨0, 1⟩)]]

/-- The flag stays set though nothing was posted. -/
theorem flag_without_request : ∃ c0 c e, Context.start (smallConfig 256) = some c0 ∧
    Runs.Run Context.step Context.ok c0 fullQueuePair c ∧ c.activeSessionMap.lookup 0 = some e ∧
    e.ackHandle.inflight = true ∧ c.ackRequests 0 = 0 := by
  obtain ⟨c0, c, h0, hrun, ht⟩ := Runs.exists_run_of_start Context.step Context.ok (Context.start (smallConfig 256))
    fullQueuePair (fun c => ((c.activeSessionMap.lookup 0).any fun e : SessionInfo => e.ackHandle.inflight) &&
      decide (c.ackRequests 0 = 0)) (by decide +kernel)
  obtain ⟨ht1, ht2⟩ := Bool.and_eq_true_iff.1 ht
  obtain ⟨e, he, hi⟩ := (Option.any_eq_true _ _).1 ht1
  exact ⟨c0, c, e, h0, hrun, he, hi, of_decide_eq_true ht2⟩

/-- With room in the queue pair the posted ACK is outstanding, in both contexts. -/
theorem flag_with_request :
    (∃ c0 c, Context.start (smallConfig 256) = some c0 ∧
      Runs.Run Context.step (fun x f => Context.ok x f ∧ Context.AcksSafe x f) c0
        [.setupConnection "a" 7 [1] [1] true, .receive "a" [⟨100, 2⟩], .arrive 0 ContextMcast.oneFragment,
         .sendAcks [(0, ⟨0, 1⟩)]] c ∧ c.ackRequests 0 = 1) ∧
    (∃ c0 c, ContextMcast.start (smallConfig 256) = some c0 ∧
      Runs.Run ContextMcast.step (fun x f => ContextMcast.ok x f ∧ ContextMcast.AcksSafe x f) c0
        ((ContextMcast.acknowledged 2).take 4) c ∧ c.toCore.ackRequests 0 = 1) := by
  constructor
  · obtain ⟨c0, c, h0, hrun, ht⟩ := Runs.exists_run_of_start Context.step
      (fun x f => Context.ok x f ∧ Context.AcksSafe x f) (Context.start (smallConfig 256))
      [.setupConnection "a" 7 [1] [1] true, .receive "a" [⟨100, 2⟩], .arrive 0 ContextMcast.oneFragment,
       .sendAcks [(0, ⟨0, 1⟩)]]
      (fun c => (c.activeSessionMap.lookup 0).any fun e : SessionInfo => e.ackHandle.inflight) (by decide +kernel)
    obtain ⟨e, he, hi⟩ := (Option.any_eq_true _ _).1 ht
    exact ⟨c0, c, h0, hrun, ((flag_tracks_requests _).1 c0 c _ h0 hrun 0 e he).1 hi⟩
  · obtain ⟨c0, c, h0, hrun, ht⟩ := Runs.exists_run_of_start ContextMcast.step
      (fun x f => ContextMcast.ok x f ∧ ContextMcast.AcksSafe x f) (ContextMcast.start (smallConfig 256))
      ((ContextMcast.acknowledged 2).take 4)
      (fun c => (c.activeSessionMap.lookup 0).any fun e : SessionInfo => e.ackHandle.inflight) (by decide +kernel)
    obtain ⟨e, he, hi⟩ := (Option.any_eq_true _ _).1 ht
    exact ⟨c0, c, h0, hrun, ((flag_tracks_requests _).2 c0 c _ h0 hrun 0 e he).1 hi⟩

end RapidTransfer
