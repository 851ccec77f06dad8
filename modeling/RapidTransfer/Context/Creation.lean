/-
Creation of sessions. A session entry is whole when its queue pointers are set and its ACK handle owns
a packet. Only a call of `send` or `receive` that meets a new session changes the set of entries
(`step_kept`, `step_opens`), and it leaves a whole entry, or the map as it was, exactly when the pool
has a packet for the ACK handle (`openSession_whole_iff`).
-/
import RapidTransfer.Context.Unicast
import RapidTransfer.Context.Mcast

namespace RapidTransfer

/-- The entry was created in full. -/
structure SessionInfo.Whole (e : SessionInfo) : Prop where
  sendQueue : e.sendQueue.isSome = true
  receiveQueue : e.receiveQueue.isSome = true
  mcastSendQueue : e.mcastSendQueue.isSome = true
  ackHandle : e.ackHandle.packetBuf.isSome = true

theorem SessionInfo.Keeps.whole_iff {e e' : SessionInfo} (h : e.Keeps e') : e'.Whole ↔ e.Whole := by
  constructor
  · rintro ⟨h1, h2, h3, h4⟩
    exact ⟨h.sendQueue ▸ h1, h.receiveQueue ▸ h2, h.mcastSendQueue ▸ h3, h.packetBuf ▸ h4⟩
  · rintro ⟨h1, h2, h3, h4⟩
    exact ⟨h.sendQueue ▸ h1, h.receiveQueue ▸ h2, h.mcastSendQueue ▸ h3, h.packetBuf ▸ h4⟩

namespace Core

/-- Every entry of the session map is whole. -/
def Whole (c : Core) : Prop := ∀ sid e, c.activeSessionMap.lookup sid = some e → e.Whole

theorem Whole.kept {c c' : Core} (h : c.Whole) (hk : SessionsKept c c') : c'.Whole := by
  intro sid e' he'
  obtain ⟨e, he, hke⟩ := hk.back he'
  exact hke.whole_iff.2 (h sid e he)

theorem whole_congr {c c' : Core} (h : c'.activeSessionMap = c.activeSessionMap) : c'.Whole ↔ c.Whole := by
  unfold Whole; rw [h]

/-- A session to be opened is there already or finds a packet for its ACK handle. -/
def FindsPacket (c : Core) (session : Option Nat) : Prop :=
  ∀ sid, session = some sid → c.activeSessionMap.lookup sid = none → c.packetManager.pool.freeBuffers ≠ []

/-- Opening a session keeps all entries whole, and the map unchanged if it fails, exactly when it finds
a packet. -/
theorem openSession_whole_iff {c c1 : Core} {sid : Nat} {ret : Int} (hw : c.Whole)
    (h : c.openSession sid = some (ret, c1)) :
    (c1.Whole ∧ (ret ≠ 0 → c1.activeSessionMap = c.activeSessionMap)) ↔ c.FindsPacket (some sid) := by
  obtain ⟨e, he, rfl, rfl⟩ | ⟨hn, hp, rfl, rfl⟩ | ⟨slot, pool, mgr, hn, hp, -, rfl, rfl⟩ := openSession_cases h
  · refine ⟨fun _ k hk hnone => ?_, fun _ => ⟨hw, fun hne => absurd rfl hne⟩⟩
    cases hk; rw [he] at hnone; cases hnone
  · refine ⟨fun hx => ?_, fun hf => absurd hp (hf sid rfl hn)⟩
    have := (hx.1 sid _ (by rw [lookup_setSession, if_pos rfl])).sendQueue
    cases this
  · refine ⟨fun _ k _ _ hnil => ?_, fun _ => ⟨fun k e he => ?_, fun hne => absurd rfl hne⟩⟩
    · rw [hp] at hnil; cases hnil
    · rw [lookup_setSession] at he
      split at he
      · cases he; exact ⟨rfl, rfl, rfl, rfl⟩
      · exact hw k e he

/-- What a property of session entries has to respect. -/
structure EntryRule (P : Nat → SessionInfo → Prop) : Prop where
  kept : ∀ {sid e e'}, P sid e → e.Keeps e' → P sid e'
  blank : ∀ sid raw, P sid (SessionInfo.construct raw)
  fresh : ∀ sid raw h, P sid (freshSession raw sid h)

/-- Every entry of the session map has the property. -/
def Entries (P : Nat → SessionInfo → Prop) (c : Core) : Prop :=
  ∀ sid e, c.activeSessionMap.lookup sid = some e → P sid e

theorem Entries.kept {P : Nat → SessionInfo → Prop} (hr : EntryRule P) {c c' : Core} (h : c.Entries P)
    (hk : SessionsKept c c') : c'.Entries P := by
  intro sid e' he'
  obtain ⟨e, he, hke⟩ := hk.back he'
  exact hr.kept (h sid e he) hke

theorem Entries.opened {P : Nat → SessionInfo → Prop} (hr : EntryRule P) {c c1 : Core} {sid : Nat} {ret : Int}
    (h : c.Entries P) (ho : c.openSession sid = some (ret, c1)) : c1.Entries P := by
  obtain ⟨e, -, -, rfl⟩ | ⟨-, -, -, rfl⟩ | ⟨slot, pool, mgr, -, -, -, -, rfl⟩ := openSession_cases ho
  · exact h
  · intro k e he
    rw [lookup_setSession] at he
    split at he
    · cases he
      exact hr.blank k _
    · exact h k e he
  · intro k e he
    rw [lookup_setSession] at he
    split at he
    · rename_i hk
      cases he
      subst hk
      exact hr.fresh k _ _
    · exact h k e he

/-- The rule carries a property of the entries through a step of either context. -/
theorem Entries.step {P : Nat → SessionInfo → Prop} (hr : EntryRule P) {c c' : Core} {session : Option Nat}
    (h : c.Entries P) (hkept : session = none → SessionsKept c c')
    (hopens : ∀ sid, session = some sid → ∃ ret c1, c.openSession sid = some (ret, c1) ∧
      c'.activeSessionMap = c1.activeSessionMap) : c'.Entries P := by
  cases session with
  | none => exact h.kept hr (hkept rfl)
  | some sid =>
    obtain ⟨ret, c1, ho, hm⟩ := hopens sid rfl
    intro k e he
    rw [hm] at he
    exact h.opened hr ho k e he

/-- The queue a session points to is its own. -/
def Own (queue : SessionInfo → Option Nat) (sid : Nat) (e : SessionInfo) : Prop := ∀ ptr, queue e = some ptr → ptr = sid

theorem entryRule_own {queue : SessionInfo → Option Nat} (hkept : ∀ {e e'}, e.Keeps e' → queue e' = queue e)
    (hblank : ∀ raw, queue (SessionInfo.construct raw) = none)
    (hfresh : ∀ raw sid h, queue (freshSession raw sid h) = some sid) : EntryRule (Own queue) where
  kept h hk ptr hp := h ptr (hkept hk ▸ hp)
  blank sid raw ptr hp := by
    rw [hblank] at hp
    cases hp
  fresh sid raw h ptr hp := by
    rw [hfresh] at hp
    exact (Option.some.inj hp).symm

end Core

/-! ## The unicast context -/

namespace Context

open RapidTransfer.Core

theorem step_kept {c c' : Core} {e : Event} (hs : step c e = some c') (ho : opens c e = none) : SessionsKept c c' := by
  cases effect hs with
  | refused h => rw [ho] at h; cases h
  | sendPushed hf => have := ho.symm.trans hf; cases this
  | receivePushed hf => have := ho.symm.trans hf; cases this
  | acksSent h => exact (sendAcks_frame h).1
  | dataSent h => exact .of_eq (sendDataPackets_frame h).1
  | dataArrived _ _ hx _ _ h =>
    obtain ⟨q', mv, mem, -, rfl⟩ := receiveData_some h
    exact sessionsKept_setSession (by rfl) hx ⟨rfl, rfl, rfl, rfl, rfl, rfl, rfl⟩
  | ackArrived _ _ hx _ _ h =>
    obtain ⟨cwnd, incr, srtt, rttval, rfl⟩ := receiveAck_some h
    exact sessionsKept_setSession (by rfl) hx ⟨rfl, rfl, rfl, rfl, rfl, rfl, rfl⟩
  | completed => exact (completeSend_frame c _).1
  | _ => exact .of_eq rfl

theorem step_opens {c c' : Core} {e : Event} {sid : Nat} (hs : step c e = some c') (ho : opens c e = some sid) :
    ∃ ret c1, c.openSession sid = some (ret, c1) ∧ c'.activeSessionMap = c1.activeSessionMap := by
  cases effect hs with
  | ignored h => rw [ho] at h; cases h
  | refused h hopen =>
    obtain rfl := Option.some.inj (ho.symm.trans h)
    exact ⟨_, _, hopen, rfl⟩
  | sendPushed hf hopen _ _ _ _ h =>
    obtain rfl := Option.some.inj (ho.symm.trans hf)
    exact ⟨_, _, hopen, h.activeSessionMap⟩
  | receivePushed hf hopen _ _ _ _ h =>
    obtain rfl := Option.some.inj (ho.symm.trans hf)
    exact ⟨_, _, hopen, h.activeSessionMap⟩
  | _ => cases ho

theorem entries_step {P : Nat → SessionInfo → Prop} (hr : EntryRule P) {c c' : Core} {e : Event} (h : c.Entries P)
    (hs : step c e = some c') : c'.Entries P :=
  h.step hr (step_kept hs) fun _ => step_opens hs

end Context

/-! ## The multicast context -/

namespace ContextMcast

open RapidTransfer.Core

theorem step_kept {c c' : ContextMcast} {e : Event} (hs : step c e = some c') (ho : opens c e = none) :
    SessionsKept c.toCore c'.toCore := by
  cases effect hs with
  | refused h => rw [ho] at h; cases h
  | sendPushed hg hf => simp [opens, hg, hf] at ho
  | receivePushed hg hf => simp [opens, hg, hf] at ho
  | acksSent h => exact (sendAcks_frame h).1
  | dataSent h =>
    obtain ⟨queues, depth, rfl⟩ := sendDataPackets_frame h
    exact .of_eq rfl
  | dataArrived _ _ hx _ _ h =>
    obtain ⟨q', mv, mem, -, rfl⟩ := receiveData_some h
    exact sessionsKept_setSession (by rfl) hx ⟨rfl, rfl, rfl, rfl, rfl, rfl, rfl⟩
  | ackArrived _ _ _ hx _ _ h =>
    obtain ⟨cwnd, incr, srtt, rttval, rfl⟩ := receiveAck_some h
    exact sessionsKept_setSession (by rfl) hx ⟨rfl, rfl, rfl, rfl, rfl, rfl, rfl⟩
  | completed => exact (completeSend_frame c.toCore _).1
  | _ => exact .of_eq rfl

theorem step_opens {c c' : ContextMcast} {e : Event} {sid : Nat} (hs : step c e = some c') (ho : opens c e = some sid) :
    ∃ ret c1, c.openSession sid = some (ret, c1) ∧ c'.activeSessionMap = c1.activeSessionMap := by
  cases effect hs with
  | ignored h => rw [ho] at h; cases h
  | refused h hopen =>
    obtain rfl := Option.some.inj (ho.symm.trans h)
    exact ⟨_, _, hopen, rfl⟩
  | sendPushed hg hf hopen _ _ _ _ h =>
    simp only [opens, hg, hf, Option.bind_some, Option.some.injEq] at ho
    subst ho
    exact ⟨_, _, hopen, h.activeSessionMap⟩
  | receivePushed hg hf hopen _ _ _ _ h =>
    simp only [opens, hg, hf, Option.some.injEq] at ho
    subst ho
    exact ⟨_, _, hopen, h.activeSessionMap⟩
  | _ => cases ho

theorem entries_step {P : Nat → SessionInfo → Prop} (hr : EntryRule P) {c c' : ContextMcast} {e : Event}
    (h : c.toCore.Entries P) (hs : step c e = some c') : c'.toCore.Entries P :=
  h.step hr (step_kept hs) fun _ => step_opens hs

end ContextMcast

/-! ## Sessions are created whole or not at all -/

open RapidTransfer.Core

/-- The opening of the session, if there is one, reports an error. -/
def OpenFails (c : Core) (session : Option Nat) : Prop :=
  ∃ sid ret c1, session = some sid ∧ c.openSession sid = some (ret, c1) ∧ ret ≠ 0

/-- All entries are whole after a step, and a failed opening has left the map alone. -/
def CreatedWhole (c : Core) (session : Option Nat) (c' : Core) : Prop :=
  c'.Whole ∧ (OpenFails c session → c'.activeSessionMap = c.activeSessionMap)

/-- One step, in either context. -/
theorem createdWhole_iff {c c' : Core} {session : Option Nat} (hw : c.Whole)
    (hkept : session = none → SessionsKept c c')
    (hopens : ∀ sid, session = some sid → ∃ ret c1, c.openSession sid = some (ret, c1) ∧
      c'.activeSessionMap = c1.activeSessionMap) :
    CreatedWhole c session c' ↔ c.FindsPacket session := by
  cases session with
  | none =>
    refine ⟨fun _ sid hs => absurd hs (by simp), fun _ => ⟨hw.kept (hkept rfl), ?_⟩⟩
    rintro ⟨sid, ret, c1, hs, -⟩; cases hs
  | some sid =>
    obtain ⟨ret, c1, ho, hm⟩ := hopens sid rfl
    rw [← openSession_whole_iff hw ho, ← whole_congr hm]
    refine and_congr_right fun _ => ⟨fun hf hne => hm ▸ hf ⟨sid, ret, c1, rfl, ho, hne⟩, ?_⟩
    rintro hf ⟨sid', ret', c2, hs, ho', hne⟩
    cases hs
    rw [ho] at ho'; cases ho'
    exact hm.trans (hf hne)

theorem whole_empty {c : Core} (h : c.activeSessionMap = ∅) : c.Whole := by
  intro sid e he; rw [h] at he; simp at he

theorem Core.construct_activeSessionMap {rto : Nat} {cfg : Core.Config} {c : Core}
    (h : Core.construct rto cfg = some c) : c.activeSessionMap = ∅ := by
  unfold Core.construct at h
  obtain ⟨r, -, rfl⟩ := Option.map_eq_some_iff.1 h
  rfl

instance (c : Core) : ∀ session, Decidable (c.FindsPacket session)
  | none => .isTrue fun _ h => nomatch h
  | some sid => decidable_of_iff ((c.activeSessionMap.lookup sid).isNone = true → c.packetManager.pool.freeBuffers ≠ [])
      ⟨fun h _ hs hn => by cases hs; exact h (by rw [hn]; rfl), fun h hn => h sid rfl (by simpa using hn)⟩

/-- In every run whose calls find a packet for the sessions they open, all entries are whole, and a
further step keeps it so, failing cleanly, exactly when it finds a packet too; in both contexts. -/
theorem sessions_created_whole_iff (cfg : Core.Config) :
    (∀ (c0 c c' : Core) (es : List Context.Event) (e : Context.Event),
      Context.start cfg = some c0 →
      Runs.Run Context.step (fun x f => Context.ok x f ∧ x.FindsPacket (Context.opens x f)) c0 es c →
      Context.step c e = some c' →
      c.Whole ∧ (CreatedWhole c (Context.opens c e) c' ↔ c.FindsPacket (Context.opens c e))) ∧
    (∀ (c0 c c' : ContextMcast) (es : List ContextMcast.Event) (e : ContextMcast.Event),
      ContextMcast.start cfg = some c0 →
      Runs.Run ContextMcast.step (fun x f => ContextMcast.ok x f ∧ x.toCore.FindsPacket (ContextMcast.opens x f))
        c0 es c →
      ContextMcast.step c e = some c' →
      c.toCore.Whole ∧ (CreatedWhole c.toCore (ContextMcast.opens c e) c'.toCore ↔
        c.toCore.FindsPacket (ContextMcast.opens c e))) := by
  constructor
  · intro c0 c c' es e h0 hrun hstep
    have key : ∀ {x x' : Core} {f : Context.Event}, x.Whole → Context.step x f = some x' →
        (CreatedWhole x (Context.opens x f) x' ↔ x.FindsPacket (Context.opens x f)) := fun hw hs =>
      createdWhole_iff hw (Context.step_kept hs) fun _ => Context.step_opens hs
    have hw : c.Whole := hrun.invariant (whole_empty (Core.construct_activeSessionMap h0))
      fun _ _ _ hw hok hs => ((key hw hs).2 hok.2).1
    exact ⟨hw, key hw hstep⟩
  · intro c0 c c' es e h0 hrun hstep
    have key : ∀ {x x' : ContextMcast} {f : ContextMcast.Event}, x.toCore.Whole → ContextMcast.step x f = some x' →
        (CreatedWhole x.toCore (ContextMcast.opens x f) x'.toCore ↔
          x.toCore.FindsPacket (ContextMcast.opens x f)) := fun hw hs =>
      createdWhole_iff hw (ContextMcast.step_kept hs) fun _ => ContextMcast.step_opens hs
    obtain ⟨core, hcore, rfl⟩ := Option.map_eq_some_iff.1 h0
    have hw : c.toCore.Whole := hrun.invariant (P := fun x : ContextMcast => x.toCore.Whole)
      (whole_empty (Core.construct_activeSessionMap hcore)) fun _ _ _ hw hok hs => ((key hw hs).2 hok.2).1
    exact ⟨hw, key hw hstep⟩

/-- Without a packet for the ACK handle the entry stays in the map with null queues. -/
theorem half_built_session : ∃ c0 c, Context.start (smallConfig 128) = some c0 ∧
    Runs.Run Context.step Context.ok c0 [.setupConnection "a" 7 [1] [1] true, .send "a" []] c ∧
    ∃ e, c.activeSessionMap.lookup 0 = some e ∧ e.sendQueue = none ∧ e.ackHandle.packetBuf = none := by
  obtain ⟨c0, c, h0, hrun, ht⟩ := Runs.exists_run_of_start Context.step Context.ok (Context.start (smallConfig 128))
    [.setupConnection "a" 7 [1] [1] true, .send "a" []]
    (fun c => (c.activeSessionMap.lookup 0).any fun e => e.sendQueue.isNone && e.ackHandle.packetBuf.isNone)
    (by decide +kernel)
  obtain ⟨e, he, hx⟩ := (Option.any_eq_true _ _).1 ht
  simp only [Bool.and_eq_true, Option.isNone_iff_eq_none] at hx
  exact ⟨c0, c, h0, hrun, e, he, hx.1, hx.2⟩

/-- With one packet to spare the session is whole, in both contexts. -/
theorem whole_session :
    (∃ c0 c c', Context.start (smallConfig 129) = some c0 ∧
      Runs.Run Context.step (fun x f => Context.ok x f ∧ x.FindsPacket (Context.opens x f)) c0
        [.setupConnection "a" 7 [1] [1] true] c ∧
      Context.step c (.send "a" []) = some c' ∧ CreatedWhole c (Context.opens c (.send "a" [])) c') ∧
    (∃ c0 c c', ContextMcast.start (smallConfig 257) = some c0 ∧
      Runs.Run ContextMcast.step (fun x f => ContextMcast.ok x f ∧ x.toCore.FindsPacket (ContextMcast.opens x f)) c0
        [.joinMulticast "224.0.0.1" true true] c ∧
      ContextMcast.step c (.send "224.0.0.1" []) = some c' ∧
      CreatedWhole c.toCore (ContextMcast.opens c (.send "224.0.0.1" [])) c'.toCore) := by
  constructor
  · obtain ⟨c0, c, h0, hrun, ht⟩ := Runs.exists_run_of_start Context.step
      (fun x f => Context.ok x f ∧ x.FindsPacket (Context.opens x f))
      (Context.start (smallConfig 129)) [.setupConnection "a" 7 [1] [1] true]
      (fun c => (Context.step c (.send "a" [])).isSome && decide (c.FindsPacket (Context.opens c (.send "a" []))))
      (by decide +kernel)
    simp only [Bool.and_eq_true, decide_eq_true_eq] at ht
    obtain ⟨c', hc'⟩ := Option.isSome_iff_exists.1 ht.1
    exact ⟨c0, c, c', h0, hrun, hc', ((sessions_created_whole_iff _).1 c0 c c' _ _ h0 hrun hc').2.2 ht.2⟩
  · obtain ⟨c0, c, h0, hrun, ht⟩ := Runs.exists_run_of_start ContextMcast.step
      (fun x f => ContextMcast.ok x f ∧ x.toCore.FindsPacket (ContextMcast.opens x f))
      (ContextMcast.start (smallConfig 257)) [.joinMulticast "224.0.0.1" true true]
      (fun c => (ContextMcast.step c (.send "224.0.0.1" [])).isSome &&
        decide (c.toCore.FindsPacket (ContextMcast.opens c (.send "224.0.0.1" []))))
      (by decide +kernel)
    simp only [Bool.and_eq_true, decide_eq_true_eq] at ht
    obtain ⟨c', hc'⟩ := Option.isSome_iff_exists.1 ht.1
    exact ⟨c0, c, c', h0, hrun, hc', ((sessions_created_whole_iff _).2 c0 c c' _ _ h0 hrun hc').2.2 ht.2⟩

end RapidTransfer
