/-
Packets that arrive for a session. A peer is registered when its connection is set up, its session
entry appears with the first local `send` or `receive`, and the session number of a packet also takes
six bits from the wire. `session_exists_iff` says exactly when an arriving packet meets an entry with
its queues.
-/
import RapidTransfer.Context.Creation

namespace RapidTransfer

namespace SessionInfo

/-- The entry has its queues. -/
def Linked (e : SessionInfo) : Prop := e.sendQueue ≠ none ∧ e.receiveQueue ≠ none ∧ e.mcastSendQueue ≠ none

/-- The entry was left behind by a creation that failed. -/
def Blank (e : SessionInfo) : Prop := e.sendQueue = none ∧ e.receiveQueue = none ∧ e.mcastSendQueue = none

theorem Keeps.linked {e e' : SessionInfo} (h : e.Keeps e') (hl : e.Linked) : e'.Linked := by
  unfold Linked; rw [h.sendQueue, h.receiveQueue, h.mcastSendQueue]; exact hl

theorem Keeps.blank {e e' : SessionInfo} (h : e.Keeps e') (hl : e.Blank) : e'.Blank := by
  unfold Blank; rw [h.sendQueue, h.receiveQueue, h.mcastSendQueue]; exact hl

theorem Blank.not_linked {e : SessionInfo} (h : e.Blank) : ¬ e.Linked := fun hl => hl.1 h.1

end SessionInfo

namespace Context

open RapidTransfer.Core

/-- An earlier call opened the session and found a packet for its ACK handle. -/
def Opened (c0 : Core) (es : List Event) (sid : Nat) : Prop :=
  ∃ es1 e es2 c, es = es1 ++ e :: es2 ∧ Runs.Run step ok c0 es1 c ∧ opens c e = some sid ∧
    c.packetManager.pool.freeBuffers ≠ []

theorem Opened.mono {c0 : Core} {es : List Event} {sid : Nat} (h : Opened c0 es sid) (e : Event) :
    Opened c0 (es ++ [e]) sid := by
  obtain ⟨es1, f, es2, c, rfl, hrun, ho, hp⟩ := h
  exact ⟨es1, f, es2 ++ [e], c, by simp, hrun, ho, hp⟩

/-- With the last event, the session it opens counts too. -/
theorem opened_snoc_iff {c0 c : Core} {es : List Event} (hrun : Runs.Run step ok c0 es c) (e : Event) (sid : Nat) :
    Opened c0 (es ++ [e]) sid ↔
      Opened c0 es sid ∨ (opens c e = some sid ∧ c.packetManager.pool.freeBuffers ≠ []) := by
  constructor
  · rintro ⟨es1, f, es2, c1, hes, hrun1, ho, hp⟩
    rcases List.eq_nil_or_concat es2 with rfl | ⟨es3, g, rfl⟩
    · obtain ⟨rfl, hx⟩ := List.append_inj' hes rfl
      cases hx
      rw [hrun.unique hrun1]
      exact .inr ⟨ho, hp⟩
    · have hes' : es ++ [e] = (es1 ++ f :: es3) ++ [g] := by rw [hes]; simp
      obtain ⟨rfl, -⟩ := List.append_inj' hes' rfl
      exact .inl ⟨es1, f, es3, c1, rfl, hrun1, ho, hp⟩
  · rintro (h | ⟨ho, hp⟩)
    · exact h.mono e
    · exact ⟨es, e, [], c, rfl, hrun, ho, hp⟩

/-- Session numbers are multiples of 256, entries have all of their queues or none, and those with
queues are the ones that were opened. -/
structure Sessions (c0 : Core) (es : List Event) (c : Core) : Prop where
  aligned : ∀ sid e, c.activeSessionMap.lookup sid = some e → sid % 256 = 0
  allOrNone : ∀ sid e, c.activeSessionMap.lookup sid = some e → e.Linked ∨ e.Blank
  opened : ∀ sid, (∃ e, c.activeSessionMap.lookup sid = some e ∧ e.Linked) ↔ Opened c0 es sid

theorem opens_aligned {c : Core} {e : Event} {sid : Nat} (h : opens c e = some sid) : sid % 256 = 0 := by
  cases e with
  | send p bufs => obtain ⟨id, -, rfl⟩ := Option.map_eq_some_iff.1 h; omega
  | receive p bufs => obtain ⟨id, -, rfl⟩ := Option.map_eq_some_iff.1 h; omega
  | _ => cases h

/-- A call that goes on with an existing session needs its queue. -/
theorem step_opens_linked {c c' : Core} {e : Event} {sid : Nat} {x : SessionInfo} (h : step c e = some c')
    (ho : opens c e = some sid) (hx : c.activeSessionMap.lookup sid = some x) : ¬ x.Blank := by
  have hopen : c.openSession sid = some (0, c) := by unfold openSession; rw [hx]
  cases e with
  | send p bufs =>
    obtain ⟨⟨ret, c2⟩, hs, -⟩ := Option.map_eq_some_iff.1 h
    obtain ⟨hf, -⟩ | ⟨sid', r, c1, hf, hopen', hp⟩ := send_some hs
    · have := ho.symm.trans hf; cases this
    · have := ho.symm.trans hf; cases this
      rw [hopen] at hopen'; cases hopen'
      obtain ⟨hne, -⟩ | ⟨-, hp⟩ := hp
      · exact absurd rfl hne
      · obtain ⟨y, ptr, _, _, _, _, _, hy, hptr, -⟩ := pushSend_some hp
        rw [hx] at hy; cases hy
        exact fun hb => by rw [hb.1] at hptr; cases hptr
  | receive p bufs =>
    obtain ⟨⟨ret, c2⟩, hs, -⟩ := Option.map_eq_some_iff.1 h
    obtain ⟨hf, -⟩ | ⟨sid', r, c1, hf, hopen', hp⟩ := receive_some hs
    · have := ho.symm.trans hf; cases this
    · have := ho.symm.trans hf; cases this
      rw [hopen] at hopen'; cases hopen'
      obtain ⟨hne, -⟩ | ⟨-, hp⟩ := hp
      · exact absurd rfl hne
      · obtain ⟨y, ptr, _, _, _, _, hy, hptr, -⟩ := pushReceive_some hp
        rw [hx] at hy; cases hy
        exact fun hb => by rw [hb.2.1] at hptr; cases hptr
  | _ => cases ho

/-- Entries of other steps come from entries with the same queues. -/
theorem Sessions.kept {c0 c c' : Core} {es : List Event} {e : Event} (h : Sessions c0 es c) (hk : SessionsKept c c')
    (hopen : ∀ sid, Opened c0 (es ++ [e]) sid ↔ Opened c0 es sid) : Sessions c0 (es ++ [e]) c' := by
  refine ⟨fun sid x hx => ?_, fun sid x hx => ?_, fun sid => ?_⟩
  · obtain ⟨y, hy, -⟩ := hk.back hx
    exact h.aligned sid y hy
  · obtain ⟨y, hy, hke⟩ := hk.back hx
    exact (h.allOrNone sid y hy).imp hke.linked hke.blank
  · rw [hopen, ← h.opened]
    constructor
    · rintro ⟨x, hx, hl⟩
      obtain ⟨y, hy, hke⟩ := hk.back hx
      exact ⟨y, hy, (h.allOrNone sid y hy).resolve_right fun hb => (hke.blank hb).not_linked hl⟩
    · rintro ⟨y, hy, hl⟩
      obtain ⟨x, hx, hke⟩ := hk.old sid y hy
      exact ⟨x, hx, hke.linked hl⟩

/-- A new entry, with its queues exactly if there was a packet for it. -/
theorem Sessions.insert {c0 c c' : Core} {es : List Event} {e : Event} {sid : Nat} {x : SessionInfo}
    (h : Sessions c0 es c) (hrun : Runs.Run step ok c0 es c) (ho : opens c e = some sid)
    (hn : c.activeSessionMap.lookup sid = none) (hx : x.Linked ∨ x.Blank)
    (hxl : x.Linked ↔ c.packetManager.pool.freeBuffers ≠ [])
    (hlook : ∀ k, c'.activeSessionMap.lookup k = if k = sid then some x else c.activeSessionMap.lookup k) :
    Sessions c0 (es ++ [e]) c' := by
  refine ⟨fun k y hy => ?_, fun k y hy => ?_, fun k => ?_⟩
  · rw [hlook] at hy
    split at hy
    · rename_i hk; rw [hk]; exact opens_aligned ho
    · exact h.aligned k y hy
  · rw [hlook] at hy
    split at hy
    · cases hy; exact hx
    · exact h.allOrNone k y hy
  · rw [opened_snoc_iff hrun, ← h.opened, hlook, ho]
    by_cases hk : k = sid
    · subst hk
      simp [hn, hxl]
    · simp [hk, Ne.symm hk]

theorem sessions_step {c0 c c' : Core} {es : List Event} {e : Event} (h : Sessions c0 es c)
    (hrun : Runs.Run step ok c0 es c) (hs : step c e = some c') : Sessions c0 (es ++ [e]) c' := by
  have hsnoc := opened_snoc_iff hrun e
  cases ho : opens c e with
  | none =>
    refine h.kept (step_kept hs ho) fun sid => (hsnoc sid).trans ⟨?_, .inl⟩
    rintro (hx | ⟨hx, -⟩)
    · exact hx
    · rw [ho] at hx; cases hx
  | some sid =>
    obtain ⟨ret, c1, hopen, hm⟩ := step_opens hs ho
    obtain ⟨x, hx, -, rfl⟩ | ⟨hn, hp, -, rfl⟩ | ⟨slot, pool, mgr, hn, hp, -, -, rfl⟩ := openSession_cases hopen
    · -- the session was there, with its queues
      have hl := (h.allOrNone sid x hx).resolve_right (step_opens_linked hs ho hx)
      refine h.kept (.of_eq hm) fun k => (hsnoc k).trans ⟨?_, .inl⟩
      rintro (hk | ⟨hk, -⟩)
      · exact hk
      · rw [ho] at hk; cases hk
        exact (h.opened sid).1 ⟨x, hx, hl⟩
    · -- no packet: a blank entry, which does not count as opened
      have hblank : (SessionInfo.construct c.packetManager.raw).Blank := ⟨rfl, rfl, rfl⟩
      refine h.insert hrun ho hn (.inr hblank) ?_ fun k => by rw [hm, lookup_setSession]
      exact ⟨fun hl => absurd hl hblank.not_linked, fun hne => absurd hp hne⟩
    · -- a packet: the entry has its queues
      have hl : (freshSession c.packetManager.raw sid (PacketHandle.setRawPacket (some slot) false)).Linked := by
        simp [SessionInfo.Linked, freshSession]
      refine h.insert hrun ho hn (.inl hl) ?_ fun k => by rw [hm, lookup_setSession]
      exact ⟨fun _ => by rw [hp]; simp, fun _ => hl⟩

theorem sessions_start {cfg : Config} {c0 : Core} (h0 : start cfg = some c0) : Sessions c0 [] c0 := by
  have hm : c0.activeSessionMap = ∅ := construct_activeSessionMap h0
  refine ⟨fun sid e he => ?_, fun sid e he => ?_, fun sid => ?_⟩
  · rw [hm] at he; simp at he
  · rw [hm] at he; simp at he
  · rw [hm]
    constructor
    · rintro ⟨e, he, -⟩; simp at he
    · rintro ⟨es1, e, es2, c, hes, -⟩; simp at hes

theorem sessions_run {cfg : Config} {c0 c : Core} {es : List Event} (h0 : start cfg = some c0)
    (hrun : Runs.Run step ok c0 es c) : Sessions c0 es c := by
  induction hrun with
  | nil => exact sessions_start h0
  | snoc hr _ hs ih => exact sessions_step ih hr hs

/-! ## Arrivals -/

/-- An arriving packet from a registered source meets a session with its queues exactly when its
session field is zero and an earlier call opened that session and found a packet for it. -/
theorem session_exists_iff (cfg : Config) (c0 c : Core) (es : List Event) (h0 : start cfg = some c0)
    (hrun : Runs.Run step ok c0 es c) (a : Arrival) (p : Packet) (hp : a.packet = some p) (sid : Nat)
    (hsid : c.controller.findSessionOfAddress a.gid a.srcQp p.session = some (some sid)) :
    (∃ e, c.activeSessionMap.lookup sid = some e ∧ e.Linked) ↔
      p.session = 0 ∧ Opened c0 es sid := by
  have hs := sessions_run h0 hrun
  obtain ⟨-, id, -, rfl⟩ := Controller.findSessionOfAddress_some hsid
  have hlt := (deserialize_bounds hp).1
  constructor
  · intro hx
    have ⟨e, he, _⟩ := hx
    have hal := hs.aligned _ e he
    have h0 : p.session = 0 := by omega
    refine ⟨h0, ?_⟩
    rw [h0] at hx ⊢
    exact (hs.opened _).1 hx
  · rintro ⟨h0, ho⟩
    rw [h0] at ho ⊢
    exact (hs.opened _).2 ho

/-- A DATA packet without payload, from a peer with one queue pair. -/
def emptyData : Arrival := ⟨7, 1, some 0, List.replicate (pktHdrSize + grhSize) 0⟩

/-- A peer that is connected sends before the first local call: the assertion fails. -/
theorem packet_before_session : ∃ c0 c, start (smallConfig 256) = some c0 ∧
    Runs.Run step ok c0 [.setupConnection "a" 7 [1] [1] true] c ∧
    c.controller.findSessionOfAddress emptyData.gid emptyData.srcQp 0 = some (some 0) ∧
    c.activeSessionMap.lookup 0 = none ∧ (step c (.arrive 0 emptyData)).isNone = true := by
  obtain ⟨c0, c, h0, hrun, ht⟩ := Runs.exists_run_of_start step ok (start (smallConfig 256))
    [.setupConnection "a" 7 [1] [1] true]
    (fun c => decide (c.controller.findSessionOfAddress emptyData.gid emptyData.srcQp 0 = some (some 0)) &&
      ((c.activeSessionMap.lookup 0).isNone && (step c (.arrive 0 emptyData)).isNone)) (by decide +kernel)
  simp only [Bool.and_eq_true, decide_eq_true_eq] at ht
  exact ⟨c0, c, h0, hrun, ht.1, Option.isNone_iff_eq_none.1 ht.2.1, ht.2.2⟩

/-- After a `receive` that found a packet for the session, the same packet meets its queues. -/
theorem packet_after_receive : ∃ c0 c, start (smallConfig 256) = some c0 ∧
    Runs.Run step ok c0 [.setupConnection "a" 7 [1] [1] true, .receive "a" []] c ∧
    ∃ e, c.activeSessionMap.lookup 0 = some e ∧ e.Linked := by
  obtain ⟨c0, c1, h0, hrun1, ht⟩ := Runs.exists_run_of_start step ok (start (smallConfig 256))
    [.setupConnection "a" 7 [1] [1] true]
    (fun c => decide (opens c (.receive "a" []) = some 0) && (decide (c.packetManager.pool.freeBuffers ≠ []) &&
      (step c (.receive "a" [])).any fun x : Core =>
        decide (x.controller.findSessionOfAddress emptyData.gid emptyData.srcQp 0 = some (some 0)))) (by decide +kernel)
  simp only [Bool.and_eq_true, decide_eq_true_eq] at ht
  obtain ⟨c, hc, hsid⟩ := (Option.any_eq_true _ _).1 ht.2.2
  have hrun : Runs.Run step ok c0 [.setupConnection "a" 7 [1] [1] true, .receive "a" []] c := hrun1.snoc trivial hc
  obtain ⟨p, hp, hp0⟩ : ∃ p, emptyData.packet = some p ∧ p.session = 0 := ⟨_, rfl, rfl⟩
  refine ⟨c0, c, h0, hrun, ?_⟩
  refine (session_exists_iff _ c0 c _ h0 hrun emptyData p hp 0 ?_).2 ⟨hp0, ?_⟩
  · rw [hp0]; exact of_decide_eq_true hsid
  · exact ⟨_, _, [], c1, rfl, hrun1, ht.1, ht.2.1⟩

end Context

end RapidTransfer
