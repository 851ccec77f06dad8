/-
The acknowledgements of a session over whole runs: the two packet counters that say whether an ACK is
owed, and the `inflight` flag of its handle. `AckRule` is what a property of this state has to respect;
each context has one lemma that carries such a property through any of its events.
-/
import RapidTransfer.Context.Creation

namespace RapidTransfer

/-- The entry's ACK handle is untouched, and packets may have been counted. -/
structure SessionInfo.SameAck (e e' : SessionInfo) : Prop where
  ackHandle : e'.ackHandle = e.ackHandle
  ackPackets : e'.ackPackets = e.ackPackets
  recvPackets : e.recvPackets ≤ e'.recvPackets
  receiveQueue : e'.receiveQueue = e.receiveQueue

theorem SessionInfo.SameAck.refl (e : SessionInfo) : e.SameAck e := ⟨rfl, rfl, le_refl _, rfl⟩

namespace Core

/-- No ACK is posted or completed: requests for data may be posted and packets be counted. -/
structure Quiet (c c' : Core) : Prop where
  old : ∀ sid e, c.activeSessionMap.lookup sid = some e → ∃ e', c'.activeSessionMap.lookup sid = some e' ∧ e.SameAck e'
  new : ∀ sid, c.activeSessionMap.lookup sid = none → c'.activeSessionMap.lookup sid = none
  posted : ∃ ds, c'.endpointStore.outstanding = c.endpointStore.outstanding ++ ds ∧ ∀ d ∈ ds, d.2.context = none

namespace Quiet

variable {c c' : Core}

theorem of_eq (hm : c'.activeSessionMap = c.activeSessionMap)
    (ho : c'.endpointStore.outstanding = c.endpointStore.outstanding) : Quiet c c' :=
  ⟨fun _ e he => ⟨e, by rw [hm]; exact he, .refl e⟩, fun _ hn => by rw [hm]; exact hn, [], by simp [ho], by simp⟩

theorem setSession (hm : c'.activeSessionMap = c.activeSessionMap)
    (ho : c'.endpointStore.outstanding = c.endpointStore.outstanding) {sid : Nat} {e e' : SessionInfo}
    (he : c.activeSessionMap.lookup sid = some e) (hs : e.SameAck e') : Quiet c (c'.setSession sid e') := by
  refine ⟨fun k x hx => ?_, fun k hn => ?_, [], by simp [Core.setSession, ho], by simp⟩
  · rw [lookup_setSession, hm]
    by_cases hk : k = sid
    · subst hk; rw [he] at hx; cases hx
      exact ⟨e', by simp, hs⟩
    · exact ⟨x, by rw [if_neg hk]; exact hx, .refl x⟩
  · rw [lookup_setSession, hm, if_neg (by rintro rfl; rw [he] at hn; cases hn)]
    exact hn

/-- Every entry comes from one with the same handle. -/
theorem back (h : Quiet c c') {sid : Nat} {e' : SessionInfo} (he' : c'.activeSessionMap.lookup sid = some e') :
    ∃ e, c.activeSessionMap.lookup sid = some e ∧ e.SameAck e' := by
  cases hl : c.activeSessionMap.lookup sid with
  | none => rw [h.new sid hl] at he'; cases he'
  | some e =>
    obtain ⟨e'', he'', hs⟩ := h.old sid e hl
    rw [he''] at he'; cases he'
    exact ⟨e, rfl, hs⟩

theorem pushed {mgr : PacketManager} {ret : Int} {t : Task} (h : c.Pushed mgr ret t c') : Quiet c c' := by
  obtain ⟨-, rfl⟩ | ⟨-, rfl⟩ := h
  · exact of_eq rfl rfl
  · exact of_eq rfl rfl

theorem receiveData {sid ptr : Nat} {e : SessionInfo} {q : ReceiveQueue} {p : Packet}
    (he : c.activeSessionMap.lookup sid = some e) (h : c.receiveData sid ptr e q p = some c') : Quiet c c' := by
  obtain ⟨q', mv, mem, -, rfl⟩ := receiveData_some h
  exact setSession (by rfl) (by rfl) he ⟨rfl, rfl, Nat.le_succ _, rfl⟩

end Quiet

/-- What a property of the ACK handles and of the outstanding requests has to respect: `allowed` is
assumed of the sessions that are opened, `good` of the ACKs that are posted. -/
structure AckRule (wnd : ReceiveQueue → Nat) (one : Bool) (allowed : Core → Nat → Prop)
    (good : Core → Nat → Post → Bool) (P : Core → Prop) : Prop where
  quiet : ∀ {c c'}, P c → Quiet c c' → P c'
  opened : ∀ {c c' sid ret}, P c → allowed c sid → c.openSession sid = some (ret, c') → P c'
  post : ∀ {c c' sid e q p ret}, P c → c.activeSessionMap.lookup sid = some e →
    e.receiveQueue.bind c.packetManager.receiveQueue = some q → owesAck e = true → good c sid p = true →
    postAck wnd one c sid e q p = some (ret, c') → P c'
  complete : ∀ {c r}, P c → r ∈ c.endpointStore.outstanding → P (c.completeSend r)

end Core

/-! ## Events -/

namespace Context

open RapidTransfer.Core

/-- Every ACK the event posts meets `good`. -/
def acksGood (good : Core → Nat → Post → Bool) (c : Core) : Event → Bool
  | .sendAcks order => acksAll ackWnd false good order c
  | _ => true

theorem quiet_sendSession {ts : Nat} {draw : Nat → Post} {c c' : Core} {sid : Nat} {b : Bool} {resent : List Nat}
    (h : sendSession ts draw c sid = some (b, c', resent)) : Quiet c c' := by
  obtain rfl | ⟨e, ptr, q, q', st, ds, -, -, -, -, -, ho, hds, rfl⟩ := sendSession_some h
  · exact .of_eq rfl rfl
  · exact ⟨fun _ e he => ⟨e, he, .refl e⟩, fun _ hn => hn, ds, ho, hds⟩

/-- The rule carries a property through every event. -/
theorem step_ack {allowed : Core → Nat → Prop} {good : Core → Nat → Post → Bool} {P : Core → Prop}
    (hr : AckRule ackWnd false allowed good P) {c c' : Core} {e : Event} (hP : P c) (hok : ok c e)
    (hall : ∀ sid, opens c e = some sid → allowed c sid) (hg : acksGood good c e = true) (hs : step c e = some c') :
    P c' := by
  cases effect hs with
  | ignored => exact hP
  | connected hst => exact hr.quiet hP (.of_eq rfl hst)
  | registered hst => exact hr.quiet hP (.of_eq rfl hst)
  | refused h ho => exact hr.opened hP (hall _ h) ho
  | sendPushed hf ho _ _ _ _ h => exact hr.quiet (hr.opened hP (hall _ hf) ho) (.pushed h)
  | receivePushed hf ho _ _ _ _ h => exact hr.quiet (hr.opened hP (hall _ hf) ho) (.pushed h)
  | freed => exact hr.quiet hP (.of_eq rfl rfl)
  | acksSent h =>
    exact sendAcks_rule (fun _ _ _ _ _ _ _ hP he hq ho hg hp => hr.post hP he hq ho hg hp) hP hg h
  | dataSent h => exact sendDataPackets_rule (fun _ _ _ _ _ hP hs => hr.quiet hP (quiet_sendSession hs)) hP h
  | dataArrived _ _ hx _ _ h => exact hr.quiet hP (.receiveData hx h)
  | ackArrived _ _ hx _ _ h =>
    obtain ⟨cwnd, incr, srtt, rttval, rfl⟩ := receiveAck_some h
    exact hr.quiet hP (.setSession (by rfl) (by rfl) hx ⟨rfl, rfl, le_refl _, rfl⟩)
  | completed => exact hr.complete hP hok

end Context

namespace ContextMcast

open RapidTransfer.Core

/-- Every ACK the event posts meets `good`. -/
def acksGood (good : Core → Nat → Post → Bool) (c : ContextMcast) : Event → Bool
  | .sendAcks order => acksAll (·.wndSize) true good order c.toCore
  | _ => true

/-- The rule carries a property through every event. -/
theorem step_ack {allowed : Core → Nat → Prop} {good : Core → Nat → Post → Bool} {P : Core → Prop}
    (hr : AckRule (·.wndSize) true allowed good P) {c c' : ContextMcast} {e : Event} (hP : P c.toCore) (hok : ok c e)
    (hall : ∀ sid, opens c e = some sid → allowed c.toCore sid) (hg : acksGood good c e = true)
    (hs : step c e = some c') : P c'.toCore := by
  cases effect hs with
  | ignored => exact hP
  | connected hst => exact hr.quiet hP (.of_eq rfl hst)
  | registered hst => exact hr.quiet hP (.of_eq rfl hst)
  | refused h ho => exact hr.opened hP (hall _ h) ho
  | sendPushed hctx hf ho _ _ _ _ h =>
    exact hr.quiet (hr.opened hP (hall _ (by simp [opens, hctx, hf])) ho) (.pushed h)
  | receivePushed hctx hf ho _ _ _ _ h =>
    exact hr.quiet (hr.opened hP (hall _ (by simp [opens, hctx, hf])) ho) (.pushed h)
  | acksSent h =>
    exact sendAcks_rule (fun _ _ _ _ _ _ _ hP he hq ho hg hp => hr.post hP he hq ho hg hp) hP hg h
  | dataSent h =>
    obtain ⟨queues, depth, rfl⟩ := sendDataPackets_frame h
    exact hr.quiet hP (.of_eq rfl rfl)
  | dataArrived _ _ hx _ _ h => exact hr.quiet hP (.receiveData hx h)
  | ackArrived _ _ _ hx _ _ h =>
    obtain ⟨cwnd, incr, srtt, rttval, rfl⟩ := receiveAck_some h
    exact hr.quiet hP (.setSession (by rfl) (by rfl) hx ⟨rfl, rfl, le_refl _, rfl⟩)
  | completed => exact hr.complete hP hok
  | _ => exact hr.quiet hP (.of_eq rfl rfl)

end ContextMcast

end RapidTransfer
