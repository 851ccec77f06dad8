/-
How a UD endpoint chooses the queue pairs of a post: the one of its peer and the one it posts on
(`RdmaUDEndPoint::postSendRequest`, `SimpleRandom` of `concurrency.h`). Both are drawn modulo the number of queue pairs,
cut to 32 bits. The peer's are those that the connecting call of `setupConnection` could read from the attribute `qp`:
none, if the text does not begin with a number, and then the first post divides by zero.
-/
import RapidTransfer.Context.Endpoint
import RapidTransfer.Controller.Attributes

namespace RapidTransfer

open Text Attributes

/-- `SimpleRandom`, with the arithmetic of `uint32_t`. -/
structure SimpleRandom where
  current : UInt32
  deriving DecidableEq, Repr

namespace SimpleRandom

def next (r : SimpleRandom) : UInt32 × SimpleRandom :=
  let current := (1664525 * r.current + 1013904223) % 0xFFFFFFFF
  (current, ⟨current⟩)

/-- `next(max)`, `none` for the division by zero. -/
def nextBelow (r : SimpleRandom) (max : UInt32) : Option (UInt32 × SimpleRandom) :=
  if max = 0 then none else some (r.next.1 % max, r.next.2)

/-- A size is cut to 32 bits before it divides. -/
theorem nextBelow_ofNat (r : SimpleRandom) (n : Nat) :
    (n % 2 ^ 32 = 0 ∧ r.nextBelow (.ofNat n) = none) ∨
    (n % 2 ^ 32 ≠ 0 ∧ ∃ i : UInt32, i.toNat = r.next.1.toNat % (n % 2 ^ 32) ∧
      r.nextBelow (.ofNat n) = some (i, r.next.2)) := by
  have hzero : UInt32.ofNat n = 0 ↔ n % 2 ^ 32 = 0 := by
    rw [← UInt32.toNat_inj, UInt32.toNat_ofNat']
    rfl
  unfold nextBelow
  by_cases hn : n % 2 ^ 32 = 0
  · exact .inl ⟨hn, if_pos (hzero.2 hn)⟩
  · refine .inr ⟨hn, _, ?_, if_neg fun h => hn (hzero.1 h)⟩
    rw [UInt32.toNat_mod, UInt32.toNat_ofNat']

end SimpleRandom

namespace RdmaUDEndPoint

/-- The draws of `postSendRequest`: the peer's queue pair number and the index of the own queue pair. `none` where a
modulus is zero or the subscript is out of bounds. -/
def choose (ep : RdmaUDEndPoint) (numQp : Nat) (r : SimpleRandom) : Option (UInt32 × UInt32 × SimpleRandom) :=
  match r.nextBelow (.ofNat ep.peerQpNumList.length) with
  | none => none
  | some (peerQpIndex, r) =>
    match r.nextBelow (.ofNat numQp) with
    | none => none
    | some (qpIndex, r) => ep.peerQpNumList[peerQpIndex.toNat]?.map fun remoteQpn => (remoteQpn, qpIndex, r)

def postSendRequest (ep : RdmaUDEndPoint) (st : EndpointStore) (requestList : List Request) (r : SimpleRandom)
    (accepted : Nat) : Option (Int × EndpointStore × SimpleRandom) :=
  if !ep.connected then some (-1, st, r)
  else
    (ep.choose st.numQp r).bind fun x =>
      (st.post requestList x.2.1.toNat accepted).map fun p => (p.1, p.2, x.2.2)

/-! ## The choice -/

section choose

variable {ep : RdmaUDEndPoint} {numQp : Nat} {r : SimpleRandom}

/-- What a choice is: a queue pair of the peer, and the index that the second draw gives. -/
theorem choose_some {remoteQpn qpIndex : UInt32} {r' : SimpleRandom}
    (h : ep.choose numQp r = some (remoteQpn, qpIndex, r')) :
    remoteQpn ∈ ep.peerQpNumList ∧ qpIndex.toNat = r.next.2.next.1.toNat % (numQp % 2 ^ 32) := by
  unfold choose at h
  obtain ⟨-, he⟩ | ⟨-, i, -, he⟩ := r.nextBelow_ofNat ep.peerQpNumList.length
  · rw [he] at h
    cases h
  · obtain ⟨-, he'⟩ | ⟨-, j, hj, he'⟩ := r.next.2.nextBelow_ofNat numQp
    · simp only [he, he'] at h
      cases h
    · simp only [he, he'] at h
      obtain ⟨x, hx, hr⟩ := Option.map_eq_some_iff.1 h
      cases hr
      exact ⟨List.mem_of_getElem? hx, hj⟩

/-- The first index is in bounds whenever there is one: it is below the size as it was cut. -/
theorem choose_ne_none_iff :
    ep.choose numQp r ≠ none ↔ ep.peerQpNumList.length % 2 ^ 32 ≠ 0 ∧ numQp % 2 ^ 32 ≠ 0 := by
  unfold choose
  obtain ⟨hpeer, he⟩ | ⟨hpeer, i, hi, he⟩ := r.nextBelow_ofNat ep.peerQpNumList.length
  · rw [he]
    exact iff_of_false (fun h => h rfl) fun h => h.1 hpeer
  · rw [he]
    simp only
    obtain ⟨hown, he'⟩ | ⟨hown, j, -, he'⟩ := r.next.2.nextBelow_ofNat numQp
    · rw [he']
      exact iff_of_false (fun h => h rfl) fun h => h.2 hown
    · have hlt : i.toNat < ep.peerQpNumList.length := by
        rw [hi]
        exact (Nat.mod_lt _ (Nat.pos_of_ne_zero hpeer)).trans_le (Nat.mod_le _ _)
      rw [he']
      refine iff_of_true ?_ ⟨hpeer, hown⟩
      simp [List.getElem?_eq_getElem hlt]

end choose

/-- The post of the context's model: its own draw is the second one here. -/
theorem postSendRequest_eq (ep : RdmaUDEndPoint) (st : EndpointStore) (rs : List Request) (r : SimpleRandom)
    (accepted : Nat) (hpeer : ep.peerQpNumList.length < 2 ^ 32) (hown : st.numQp < 2 ^ 32) :
    (ep.postSendRequest st rs r accepted).map (fun p => (p.1, p.2.1)) =
      st.postSendRequest ⟨ep.connected, ep.peerQpNumList.map UInt32.toNat⟩ rs ⟨r.next.2.next.1.toNat, accepted⟩ := by
  unfold postSendRequest EndpointStore.postSendRequest
  cases ep.connected with
  | false => rfl
  | true =>
    simp only [Bool.not_true, Bool.false_eq_true, if_false, List.length_map]
    have hiff := @choose_ne_none_iff ep st.numQp r
    rw [Nat.mod_eq_of_lt hpeer, Nat.mod_eq_of_lt hown] at hiff
    cases hchoose : ep.choose st.numQp r with
    | none =>
      rw [hchoose] at hiff
      have hzero : ep.peerQpNumList.length = 0 ∨ st.numQp = 0 := by
        by_contra hne
        push Not at hne
        exact hiff.2 hne rfl
      rw [if_pos hzero]
      rfl
    | some x =>
      rw [hchoose] at hiff
      obtain ⟨hpos, hpos'⟩ := hiff.1 (Option.some_ne_none x)
      have hindex := (choose_some hchoose).2
      rw [Nat.mod_eq_of_lt hown] at hindex
      rw [if_neg (by tauto), ← hindex]
      simp only [Option.bind_some, Option.map_map]
      cases st.post rs x.2.1.toNat accepted <;> rfl

end RdmaUDEndPoint

/-! ## The numbers in a text -/

namespace Attributes

theorem readAll_none {s s' : IStringStream} (h : s.readUInt32 = (none, s')) : readAll s = [] := by
  unfold readAll
  split
  · rfl
  · rename_i h'
    rw [h] at h'
    cases h'

theorem readAll_some {s s' : IStringStream} {val : UInt32} (h : s.readUInt32 = (some val, s')) :
    readAll s = val :: readAll s' := by
  rw [readAll]
  split
  · rename_i h'
    rw [h] at h'
    cases h'
  · rename_i h'
    rw [h] at h'
    cases h'
    rfl

/-- A text has no more numbers than characters. -/
theorem length_readAll_le (s : IStringStream) : (readAll s).length ≤ s.rest.length := by
  induction hlen : s.rest.length using Nat.strong_induction_on generalizing s with
  | _ n ih =>
    obtain ⟨val, s', h⟩ : ∃ val s', s.readUInt32 = (val, s') := ⟨_, _, rfl⟩
    cases val with
    | none =>
      rw [readAll_none h]
      exact Nat.zero_le _
    | some val =>
      have hlt := IStringStream.readUInt32_rest_lt h
      have hrest := ih s'.rest.length (hlen ▸ hlt) s' rfl
      rw [readAll_some h, List.length_cons]
      omega

/-- The list is not empty when the text begins with a number of 32 bits. -/
theorem fromString_ne_nil_iff {str : List Char} :
    fromString str ≠ [] ↔ ∃ x rest, Begins str x rest ∧ x.magnitude 10 < 2 ^ 32 := by
  rw [← IStringStream.readUInt32_ofText_iff, fromString]
  obtain ⟨val, s', h⟩ : ∃ val s', (IStringStream.ofText str).readUInt32 = (val, s') := ⟨_, _, rfl⟩
  cases val with
  | none =>
    rw [readAll_none h, h]
    refine iff_of_false (fun hne => hne rfl) ?_
    rintro ⟨val, s, he⟩
    cases he
  | some val =>
    rw [readAll_some h]
    exact iff_of_true (List.cons_ne_nil _ _) ⟨val, s', h⟩

/-- The numbers read from the text can be counted by a `uint32_t` that is not zero. -/
def Numbered (qp : List Char) : Prop := (fromString qp).length % 2 ^ 32 ≠ 0

theorem numbered_iff {qp : List Char} (h : qp.length < 2 ^ 32) :
    Numbered qp ↔ ∃ x rest, Begins qp x rest ∧ x.magnitude 10 < 2 ^ 32 := by
  have hle : (fromString qp).length ≤ qp.length := length_readAll_le _
  rw [← fromString_ne_nil_iff, Numbered, Nat.mod_eq_of_lt (hle.trans_lt h), ne_eq, List.length_eq_zero_iff]

end Attributes

/-! ## After a connection -/

/-- An endpoint is connected once. -/
theorem RdmaUDEndPoint.setupConnection_zero {ep ep' : RdmaUDEndPoint} {peerGid : List Char} {peerLid : UInt16}
    {peerQpNumList : List UInt32} {ahCreated : Bool} {raw : Nat → Int}
    (h : ep.setupConnection peerGid peerLid peerQpNumList ahCreated raw = (0, ep')) :
    ep'.connected = true ∧ ep'.peerQpNumList = if ep.connected then ep.peerQpNumList else peerQpNumList := by
  unfold setupConnection at h
  split at h
  · rename_i hconn
    cases h
    exact ⟨hconn, (if_pos hconn).symm⟩
  · rename_i hconn
    simp only at h
    split at h
    · cases h
    · cases h
      exact ⟨rfl, (if_neg hconn).symm⟩

/-- What an accepted call leaves: the endpoint is connected, to the queue pairs it had, or to those of the call. -/
theorem Controller.setupConnection_zero {c c' : Controller} {ep ep' : RdmaUDEndPoint} {peerAddr : String}
    {peer : Attributes} {ahCreated : Bool} {raw raw' : Nat → Int}
    (h : c.setupConnection (some ep) peerAddr peer ahCreated raw raw' = some (0, some ep', c')) :
    ∃ qp, peer "qp" = some qp ∧ ep'.connected = true ∧
      ep'.peerQpNumList = if ep.connected then ep.peerQpNumList else fromString qp := by
  unfold setupConnection at h
  simp only at h
  split at h
  · rename_i lidStr gid qp extQp _ _ hqp _
    refine ⟨qp, hqp, ?_⟩
    obtain ⟨value, -, he⟩ := Option.map_eq_some_iff.1 h
    split at he
    · rename_i hret
      exact absurd (congrArg Prod.fst he) hret
    · rename_i hret
      have hep := Option.some.inj (congrArg (·.2.1) he)
      exact RdmaUDEndPoint.setupConnection_zero (Prod.ext (not_not.1 hret) hep)
  · cases h

/-- After an accepted call the endpoint can choose, whatever the generator holds, exactly when both numbers of queue
pairs are no multiples of `2 ^ 32`: its own, and the peer's, which are those of the call that connected it. -/
theorem choice_possible_iff (c c' : Controller) (ep ep' : RdmaUDEndPoint) (peerAddr : String) (peer : Attributes)
    (ahCreated : Bool) (raw raw' : Nat → Int) (numQp : Nat) (r : SimpleRandom)
    (h : c.setupConnection (some ep) peerAddr peer ahCreated raw raw' = some (0, some ep', c')) :
    ep'.connected = true ∧
    (ep'.choose numQp r ≠ none ↔ numQp % 2 ^ 32 ≠ 0 ∧
      if ep.connected then ep.peerQpNumList.length % 2 ^ 32 ≠ 0 else ∃ qp, peer "qp" = some qp ∧ Numbered qp) := by
  obtain ⟨qp, hqp, hconn, hlist⟩ := Controller.setupConnection_zero h
  refine ⟨hconn, ?_⟩
  rw [RdmaUDEndPoint.choose_ne_none_iff, hlist, and_comm]
  refine and_congr_right fun _ => ?_
  cases ep.connected with
  | true => exact Iff.rfl
  | false =>
    simp only [Bool.false_eq_true, if_false, hqp, Option.some.injEq, exists_eq_left']
    exact Iff.rfl

/-- An endpoint as the store creates it. -/
def RdmaUDEndPoint.fresh : RdmaUDEndPoint :=
  { connected := false, dgid := ⟨List.replicate 16 0, rfl⟩, peerGid := [], peerLid := 0, peerQpNumList := [] }

/-- Attributes whose queue pairs are the text. -/
def sampleAttributes (qp : String) : Attributes := fun key =>
  if key = "lid" then some ['0'] else if key = "gid" then some [] else if key = "qp" then some qp.toList
  else if key = "ext_qp" then some [] else none

theorem sample_accepted (qp : String) : ∃ ep' c',
    (Controller.construct false).setupConnection (some .fresh) "a" (sampleAttributes qp) true (fun _ => 0)
      (fun _ => 0) = some (0, some ep', c') ∧ ep'.peerQpNumList = fromString qp.toList :=
  ⟨_, _, rfl, rfl⟩

/-- A text without a number is accepted, and then no choice is possible. -/
theorem no_queue_pair_to_choose : ∃ ep' c',
    (Controller.construct false).setupConnection (some .fresh) "a" (sampleAttributes "none") true (fun _ => 0)
      (fun _ => 0) = some (0, some ep', c') ∧ ∀ numQp r, ep'.choose numQp r = none := by
  obtain ⟨ep', c', h, hlist⟩ := sample_accepted "none"
  rw [show fromString "none".toList = [] from readAll_none rfl] at hlist
  refine ⟨ep', c', h, fun numQp r => ?_⟩
  by_contra hne
  exact (RdmaUDEndPoint.choose_ne_none_iff.1 hne).1 (by rw [hlist]; rfl)

/-- Two numbers, and something behind them: the endpoint chooses, whatever the generator holds. -/
theorem queue_pair_chosen : ∃ ep' c',
    (Controller.construct false).setupConnection (some .fresh) "a" (sampleAttributes "7 8 x") true (fun _ => 0)
      (fun _ => 0) = some (0, some ep', c') ∧ ∀ r, ep'.choose 1 r ≠ none := by
  have hnumbered : Numbered "7 8 x".toList := by
    refine (numbered_iff (by decide)).2
      ⟨⟨false, [7]⟩, " 8 x".toList, ⟨⟨[], [], rfl, ?_, .inl ⟨rfl, rfl⟩⟩, ?_, ?_, ?_⟩, ?_⟩
    · rintro c ⟨⟩
    · exact List.cons_ne_nil _ _
    · decide
    · rintro c ⟨⟩
      rfl
    · decide
  obtain ⟨ep', c', h, -⟩ := sample_accepted "7 8 x"
  exact ⟨ep', c', h, fun r => (choice_possible_iff _ _ _ _ _ _ _ _ _ 1 r h).2.2 ⟨by decide, _, rfl, hnumbered⟩⟩

end RapidTransfer
