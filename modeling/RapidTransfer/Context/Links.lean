/-
The endpoint store along the runs of the unicast context. `StoreRule` lists the four ways an event can
touch the store, and `step_store` packages what every event respects. From it: the limits of the queue
pairs never change, and every name the controller knows leads to a connected endpoint.
-/
import RapidTransfer.Context.Unicast

namespace RapidTransfer

/-- What every operation on the endpoint store keeps. -/
structure EndpointStore.StoreRule (P : EndpointStore → Prop) : Prop where
  get : ∀ {st name}, P st → P (st.getOrCreateEndpoint name).2
  setup : ∀ {st name Q created}, P st → P (st.setupConnection name Q created).2
  post : ∀ {st ep rs p ret st'}, P st → st.postSendRequest ep rs p = some (ret, st') → P st'
  complete : ∀ {st r}, P st → P (st.complete r)

namespace EndpointStore

/-- A post changes the depths and the outstanding requests only. -/
theorem postSendRequest_frame {st st' : EndpointStore} {ep : Endpoint} {rs : List Request} {p : Post} {ret : Int}
    (h : st.postSendRequest ep rs p = some (ret, st')) :
    st'.endpointMap = st.endpointMap ∧ st'.maxWrDepth = st.maxWrDepth ∧ st'.numQp = st.numQp := by
  unfold postSendRequest at h
  split at h
  · cases h; exact ⟨rfl, rfl, rfl⟩
  · split at h
    · cases h
    · unfold post at h
      simp only at h
      split at h
      · cases h; exact ⟨rfl, rfl, rfl⟩
      · split at h
        · cases h
        · cases h; exact ⟨rfl, rfl, rfl⟩

/-- Everything `setupConnection` can do: an error, an endpoint that was connected, or a new connection. -/
theorem setupConnection_cases (st : EndpointStore) (name : String) (Q : List Nat) (created : Bool) :
    (∃ st', st.setupConnection name Q created = (-1, st') ∧ (st' = st ∨ st' = (st.getOrCreateEndpoint name).2)) ∨
    (∃ ep, st.endpointMap name = some ep ∧ ep.connected = true ∧ st.setupConnection name Q created = (0, st)) ∨
    ((∀ ep, st.endpointMap name = some ep → ep.connected = false) ∧ st.setupConnection name Q created =
      (0, { st with endpointMap := Function.update st.endpointMap name (some ⟨true, Q⟩) })) := by
  unfold setupConnection
  obtain ⟨-, he⟩ | ⟨ep, -, hep, he⟩ | ⟨-, hnone, he⟩ := st.getOrCreateEndpoint_cases name
  · rw [he]
    exact .inl ⟨st, rfl, .inl rfl⟩
  · rw [he]
    simp only
    cases hc : ep.connected with
    | true => exact .inr (.inl ⟨ep, hep, hc, rfl⟩)
    | false =>
      cases created with
      | false => exact .inl ⟨st, rfl, .inl rfl⟩
      | true =>
        refine .inr (.inr ⟨fun ep' hep' => ?_, rfl⟩)
        rw [hep] at hep'
        cases hep'
        exact hc
  · rw [he]
    cases created with
    | false => exact .inl ⟨_, rfl, .inr rfl⟩
    | true =>
      refine .inr (.inr ⟨fun ep' hep' => ?_, ?_⟩)
      · rw [hnone] at hep'; cases hep'
      · simp

theorem storeRule_limits (m : Int) (n : Nat) : StoreRule fun st => st.maxWrDepth = m ∧ st.numQp = n := by
  have get : ∀ {st : EndpointStore} {name}, st.maxWrDepth = m ∧ st.numQp = n →
      (st.getOrCreateEndpoint name).2.maxWrDepth = m ∧ (st.getOrCreateEndpoint name).2.numQp = n := by
    intro st name h
    obtain ⟨-, he⟩ | ⟨ep, -, -, he⟩ | ⟨-, -, he⟩ := st.getOrCreateEndpoint_cases name <;> rw [he] <;> exact h
  constructor
  · exact get
  · intro st name Q created h
    obtain ⟨st', he, rfl | rfl⟩ | ⟨ep, -, -, he⟩ | ⟨-, he⟩ := st.setupConnection_cases name Q created
    · rw [he]; exact h
    · rw [he]; exact get h
    · rw [he]; exact h
    · rw [he]; exact h
  · intro st ep rs p ret st' h hp
    obtain ⟨-, h1, h2⟩ := postSendRequest_frame hp
    rw [h1, h2]
    exact h
  · exact fun h => h

/-- A connected endpoint stays. -/
theorem storeRule_connected {peer : String} {ep : Endpoint} (hc : ep.connected = true) :
    StoreRule fun st => st.endpointMap peer = some ep := by
  have get : ∀ {st : EndpointStore} {name}, st.endpointMap peer = some ep →
      (st.getOrCreateEndpoint name).2.endpointMap peer = some ep := by
    intro st name h
    obtain ⟨-, he⟩ | ⟨_, -, -, he⟩ | ⟨-, hnone, he⟩ := st.getOrCreateEndpoint_cases name
    · rw [he]; exact h
    · rw [he]; exact h
    · rw [he]
      have hne : peer ≠ name := by
        rintro rfl
        rw [hnone] at h
        cases h
      simp only [Function.update_of_ne hne]
      exact h
  constructor
  · exact get
  · intro st name Q created h
    obtain ⟨st', he, rfl | rfl⟩ | ⟨_, -, -, he⟩ | ⟨hold, he⟩ := st.setupConnection_cases name Q created
    · rw [he]; exact h
    · rw [he]; exact get h
    · rw [he]; exact h
    · rw [he]
      have hne : peer ≠ name := by
        rintro rfl
        rw [hold ep h] at hc
        cases hc
      simp only [Function.update_of_ne hne]
      exact h
  · intro st ep' rs p ret st' h hp
    rw [(postSendRequest_frame hp).1]
    exact h
  · exact fun h => h

end EndpointStore

namespace Context

open RapidTransfer.Core

variable {P : EndpointStore → Prop} (hP : EndpointStore.StoreRule P)

/-! ## What every event keeps of the store -/

theorem Sending.touch_core (l : Sending) (ts curr : Nat) : (l.touch ts curr).core = l.core := by
  unfold touch
  split
  · rfl
  · rfl

/-- The events that post, complete or connect something. -/
def touchesStore : Event → Bool
  | .setupConnection .. => true
  | .sendAcks .. => true
  | .sendData .. => true
  | .sent .. => true
  | _ => false

/-- The other events leave the store alone. -/
theorem step_endpointStore {c c' : Core} {e : Event} (hs : step c e = some c') (he : touchesStore e = false) :
    c'.endpointStore = c.endpointStore := by
  have hopen : ∀ {sid ret} {c1 : Core}, c.openSession sid = some (ret, c1) → c1.endpointStore = c.endpointStore := by
    intro sid ret c1 ho
    obtain ⟨x, -, -, rfl⟩ | ⟨-, -, -, rfl⟩ | ⟨slot, pool, mgr, -, -, -, -, rfl⟩ := openSession_cases ho <;> rfl
  have hpush : ∀ {c1 c2 : Core} {mgr ret t}, c1.Pushed mgr ret t c2 → c2.endpointStore = c1.endpointStore := by
    intro c1 c2 mgr ret t hp
    obtain ⟨-, rfl⟩ | ⟨-, rfl⟩ := hp <;> rfl
  cases effect hs with
  | connected => cases he
  | registered => cases he
  | acksSent => cases he
  | dataSent => cases he
  | completed => cases he
  | ignored => rfl
  | freed => rfl
  | refused _ ho => exact hopen ho
  | sendPushed _ ho _ _ _ _ hpu => exact (hpush hpu).trans (hopen ho)
  | receivePushed _ ho _ _ _ _ hpu => exact (hpush hpu).trans (hopen ho)
  | dataArrived _ _ _ _ _ h => obtain ⟨q', mv, mem, -, rfl⟩ := receiveData_some h; rfl
  | ackArrived _ _ _ _ _ h => obtain ⟨cwnd, incr, srtt, rttval, rfl⟩ := receiveAck_some h; rfl

include hP

theorem getOrCreateEndpoint_store {c : Core} (sid : Nat) (h : P c.endpointStore) :
    P (c.getOrCreateEndpoint sid).2.endpointStore := by
  unfold Core.getOrCreateEndpoint
  split
  · exact h
  · exact hP.get h

theorem connect_store {l : Sending} (sid : Nat) (h : P l.core.endpointStore) :
    P (l.connect sid).2.core.endpointStore := by
  unfold Sending.connect
  split
  · exact h
  · exact getOrCreateEndpoint_store hP sid h

theorem flush_store {l l' : Sending} {ep : Endpoint} {draw : Nat → Post} (h : P l.core.endpointStore)
    (hf : l.flush ep draw = some l') : P l'.core.endpointStore := by
  obtain ⟨⟨ret, st⟩, hp, rfl⟩ := Option.map_eq_some_iff.1 hf
  exact hP.post h hp

theorem sendIndex_store {l l' : Sending} {ts sid curr : Nat} {draw : Nat → Post} {b : Bool} (h : P l.core.endpointStore)
    (hs : sendIndex ts draw sid l curr = some (b, l')) : P l'.core.endpointStore := by
  have ht : P (l.touch ts curr).core.endpointStore := by rw [l.touch_core]; exact h
  have hcon := connect_store hP sid ht
  unfold sendIndex at hs
  simp only at hs
  split at hs
  · cases hs; exact ht
  · split at hs
    · rename_i hl; rw [hl] at hcon; cases hs; exact hcon
    · rename_i ep m hl
      rw [hl] at hcon
      split at hs
      · obtain ⟨l1, hf, hx⟩ := Option.map_eq_some_iff.1 hs
        cases hx
        exact flush_store hP (l := { m with requestList := m.requestList ++ [⟨none⟩] }) hcon hf
      · cases hs; exact hcon

theorem sendIndices_store {ts sid : Nat} {draw : Nat → Post} : ∀ {is : List Nat} {l l' : Sending} {b : Bool},
    P l.core.endpointStore → sendIndices ts draw sid is l = some (b, l') → P l'.core.endpointStore
  | [], l, l', b, h, hs => by cases hs; exact h
  | i :: is, l, l', b, h, hs => by
    unfold sendIndices at hs
    split at hs
    · cases hs; exact h
    · split at hs
      · cases hs
      · rename_i h1; cases hs; exact sendIndex_store hP h h1
      · rename_i h1; exact sendIndices_store (sendIndex_store hP h h1) hs

theorem finish_store {l l' : Sending} {draw : Nat → Post} (h : P l.core.endpointStore)
    (hf : finish draw l = some l') : P l'.core.endpointStore := by
  unfold finish at hf
  split at hf
  · cases hf; exact h
  · cases hf
  · exact flush_store hP h hf

theorem sendSession_store {ts sid : Nat} {draw : Nat → Post} {c c' : Core} {b : Bool} {resent : List Nat}
    (h : P c.endpointStore) (hs : sendSession ts draw c sid = some (b, c', resent)) : P c'.endpointStore := by
  unfold sendSession at hs
  split at hs
  · cases hs
  · rename_i e _
    split at hs
    · cases hs; exact h
    · split at hs
      · cases hs
      · split at hs
        · cases hs
        · split at hs
          · cases hs
          · rename_i hl; cases hs; exact sendIndices_store hP h hl
          · rename_i hl
            obtain ⟨l', hf, hx⟩ := Option.map_eq_some_iff.1 hs
            cases hx
            exact finish_store hP (sendIndices_store hP h hl) hf

theorem postAck_store {wnd : ReceiveQueue → Nat} {one : Bool} {c c' : Core} {sid : Nat} {e : SessionInfo}
    {q : ReceiveQueue} {p : Post} {ret : Int} (h : P c.endpointStore)
    (hs : postAck wnd one c sid e q p = some (ret, c')) : P c'.endpointStore := by
  have hget := getOrCreateEndpoint_store hP
    (c := c.setSession sid { e with ackHandle := ackHeader sid (wnd q) q e.ackHandle }) sid h
  obtain ⟨-, rfl⟩ | ⟨-, rfl⟩ | ⟨-, ep, r, st, hp, ⟨-, rfl⟩ | ⟨-, rfl⟩⟩ := postAck_cases rfl hs
  · exact h
  · exact hget
  · exact hP.post hget hp
  · exact hP.post hget hp

/-- Every event keeps what the operations on the store keep. -/
theorem step_store {c c' : Core} {e : Event} (h : P c.endpointStore) (hs : step c e = some c') :
    P c'.endpointStore := by
  cases e with
  | setupConnection p g Q ext created =>
    cases hs
    unfold Core.setupConnection
    simp only
    split
    · exact hP.setup h
    · exact hP.setup h
  | sendAcks order =>
    obtain ⟨⟨ret, c2⟩, hx, rfl⟩ := Option.map_eq_some_iff.1 hs
    exact sendAcks_rule (P := fun x => P x.endpointStore) (fun _ _ _ _ _ _ _ hx _ _ _ _ hp => postAck_store hP hx hp)
      h (acksAll_true ackWnd false order c) hx
  | sendData ts order draw =>
    obtain ⟨⟨ret, c2, log⟩, hx, rfl⟩ := Option.map_eq_some_iff.1 hs
    exact sendDataPackets_rule (P := fun x => P x.endpointStore)
      (fun _ _ _ _ _ hx hses => sendSession_store hP hx hses) h hx
  | sent r =>
    cases hs
    obtain he | ⟨sid, e, -, -, -, he⟩ := completeSend_cases c r
    · rw [he]; exact hP.complete h
    · rw [he]; exact hP.complete h
  | _ => rw [step_endpointStore hs (by rfl)]; exact h

omit hP

/-! ## The peers of a reachable context -/

/-- Every name the controller knows leads to a connected endpoint. -/
def Linked (c : Core) : Prop :=
  ∀ id name, c.controller.peerNameRevMap id = some name →
    ∃ ep, c.endpointStore.endpointMap name = some ep ∧ ep.connected = true

theorem Linked.setupConnection {c : Core} (h : Linked c) (p : String) (g : BitVec 128) (Q ext : List Nat)
    (created : Bool) : Linked (c.setupConnection p g Q ext created).2 := by
  have hkeep : ∀ id name, c.controller.peerNameRevMap id = some name → ∃ ep,
      (c.endpointStore.setupConnection p Q created).2.endpointMap name = some ep ∧ ep.connected = true := by
    intro id name hn
    obtain ⟨ep, hep, hc⟩ := h id name hn
    exact ⟨ep, (EndpointStore.storeRule_connected hc).setup hep, hc⟩
  unfold Core.setupConnection
  simp only
  split
  · exact hkeep
  · rename_i hret
    intro id name hn
    simp only [Controller.registerNode, Controller.bind_peerNameRevMap] at hn
    split at hn
    · cases hn
      obtain ⟨st', he, -⟩ | ⟨ep, hep, hc, he⟩ | ⟨-, he⟩ := c.endpointStore.setupConnection_cases p Q created
      · rw [he] at hret
        exact absurd (show (-1 : Int) ≠ 0 by decide) hret
      · simp only [he]
        exact ⟨ep, hep, hc⟩
      · simp only [he, Function.update_self]
        exact ⟨_, rfl, rfl⟩
    · exact hkeep id name hn

theorem Linked.step {c c' : Core} {e : Event} (h : Linked c) (hs : Context.step c e = some c') : Linked c' := by
  by_cases hset : ∃ p g Q ext created, e = .setupConnection p g Q ext created
  · obtain ⟨p, g, Q, ext, created, rfl⟩ := hset
    cases hs
    exact h.setupConnection p g Q ext created
  · have hctrl : c'.controller = c.controller := by
      cases effect hs with
      | registered => exact absurd ⟨_, _, _, _, _, rfl⟩ hset
      | refused _ ho => exact (openSession_frame ho).1
      | sendPushed _ ho _ _ _ _ hpu => exact hpu.controller.trans (openSession_frame ho).1
      | receivePushed _ ho _ _ _ _ hpu => exact hpu.controller.trans (openSession_frame ho).1
      | acksSent h => obtain ⟨-, st, m, rfl⟩ := sendAcks_frame h; rfl
      | dataSent h => exact (sendDataPackets_frame h).2.1
      | dataArrived _ _ _ _ _ h => obtain ⟨q', mv, mem, -, rfl⟩ := receiveData_some h; rfl
      | ackArrived _ _ _ _ _ h => obtain ⟨cwnd, incr, srtt, rttval, rfl⟩ := receiveAck_some h; rfl
      | @completed r => obtain ⟨-, st, m, he⟩ := completeSend_frame c r; rw [he]
      | _ => rfl
    intro id name hn
    rw [hctrl] at hn
    obtain ⟨ep, hep, hc⟩ := h id name hn
    exact ⟨ep, step_store (EndpointStore.storeRule_connected hc) hep hs, hc⟩

theorem linked_of_reachable {cfg : Config} {es : List Event} {c : Core} (h : Reachable cfg es c) : Linked c := by
  obtain ⟨c0, h0, hrun⟩ := h
  refine hrun.invariant ?_ fun x e x' hx _ hs => hx.step hs
  obtain ⟨r, -, rfl⟩ := Option.map_eq_some_iff.1 h0
  intro id name hn
  cases hn

end Context

end RapidTransfer
