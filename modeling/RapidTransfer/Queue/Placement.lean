/-
Where the payloads of a receive queue go, over whole runs. Any packet may arrive: duplicates, numbers outside the
window, forged ones. The window test also lets numbers through whose requests are not posted yet, so what keeps a
payload out of the wrong memory is that the slots beyond `head_` are not outstanding (`Clean.idle`). A packet is then
written exactly when it has the number of a request of the window that still waits for its payload, and `tail_` ends
at the first request that does. Over a run the requests received are the requests written, each of them once
(`placed_once`).
-/
import RapidTransfer.Queue.Addressing

namespace RapidTransfer.ReceiveQueue

/-- The request of index `i`. -/
def requestAt (q : ReceiveQueue) (i : Nat) : RecvRequest := q.requests (i % q.queueCapacity)

/-- Request `i` is posted, in the window, and waits for its payload. -/
def Awaits (q : ReceiveQueue) (i : Nat) : Prop :=
  q.tail ≤ i ∧ i < q.head ∧ i < q.tail + q.wndSize ∧ ¬ q.Received i

/-- What a packet does: the move it makes, the requests received after it, and the new `tail_`. -/
structure Places (q : ReceiveQueue) (p : Packet) (q' : ReceiveQueue) (mv : Option MemMove) : Prop where
  move : ∀ m, mv = some m ↔ ∃ i, q.Awaits i ∧ shortSN i = p.sn ∧ m = ⟨(q.requestAt i).addr, p.payload⟩
  fits : ∀ i, q.Awaits i → shortSN i = p.sn → p.payload.length = (q.requestAt i).length
  received : ∀ j, q'.Received j ↔ q.Received j ∨ (q.Awaits j ∧ shortSN j = p.sn)
  tailUp : q.tail ≤ q'.tail ∧ q'.tail ≤ q.head
  below : ∀ j < q'.tail, q.Received j ∨ (q.Awaits j ∧ shortSN j = p.sn)
  stop : q'.tail < q.head → ¬ (q.Received q'.tail ∨ (q.Awaits q'.tail ∧ shortSN q'.tail = p.sn))

/-! ## The invariant -/

/-- Outstanding slots belong to posted requests, and `tail_` is at the first of them. -/
structure Clean (q : ReceiveQueue) : Prop where
  fits : q.Fits
  capDvd : q.queueCapacity ∣ 2 ^ 24
  idle : ∀ k, (q.requests k).inflight = true → ∃ i, q.tail ≤ i ∧ i < q.head ∧ i % q.queueCapacity = k
  front : q.tail < q.head → (q.requestAt q.tail).inflight = true

variable {q : ReceiveQueue}

theorem Fits.not_received (h : q.Fits) {j : Nat} (hj : q.head ≤ j) : ¬ q.Received j := by
  have htl := h.tailLe
  rintro (hlt | ⟨hlt, -⟩)
  · omega
  · omega

/-- Where the advance loop ends. -/
theorem advance_spec : ∀ (n : Nat) (q : ReceiveQueue), q.tail ≤ q.head → q.head ≤ q.tail + n →
    ∃ t, advance n q = { q with tail := t } ∧ q.tail ≤ t ∧ t ≤ q.head ∧
      (∀ j, q.tail ≤ j → j < t → (q.requestAt j).inflight = false) ∧
      (t < q.head → (q.requestAt t).inflight = true)
  | 0, q, h1, h2 => ⟨q.tail, rfl, le_refl _, h1, fun j hj hlt => absurd hlt (not_lt.2 hj), fun hlt => by omega⟩
  | n + 1, q, h1, h2 => by
    unfold advance
    split
    · exact ⟨q.tail, rfl, le_refl _, h1, fun j hj hlt => absurd hlt (not_lt.2 hj), fun hlt => by omega⟩
    · rename_i hne
      split
      · rename_i hf
        exact ⟨q.tail, rfl, le_refl _, h1, fun j hj hlt => absurd hlt (not_lt.2 hj), fun _ => hf⟩
      · rename_i hf
        obtain ⟨t, he, hlo, hhi, hdone, hstop⟩ := advance_spec n { q with tail := q.tail + 1 } (by simp only; omega)
          (by simp only; omega)
        refine ⟨t, he, by simp only at hlo; omega, hhi, ?_, hstop⟩
        intro j hj hlt
        rcases Nat.eq_or_lt_of_le hj with rfl | hj
        · exact Bool.eq_false_iff.2 hf
        · exact hdone j hj hlt

theorem Fits.advance_end (h : q.Fits) :
    ∃ t, ReceiveQueue.advance (sub64 q.head q.tail) q = { q with tail := t } ∧ q.tail ≤ t ∧ t ≤ q.head ∧
      (∀ j, q.tail ≤ j → j < t → (q.requestAt j).inflight = false) ∧
      (t < q.head → (q.requestAt t).inflight = true) := by
  have hl16 := h.len16
  refine advance_spec _ q h.tailLe ?_
  rw [sub64_of_le h.tailLe (by omega)]
  omega

/-- Where `tail_` is at the end of `markCompleted`. -/
theorem Fits.settle_tail (h : q.Fits) :
    q.tail ≤ q.settle.tail ∧ q.settle.tail ≤ q.head ∧
      (∀ j, q.tail ≤ j → j < q.settle.tail → (q.requestAt j).inflight = false) ∧
      (q.settle.tail < q.head → (q.requestAt q.settle.tail).inflight = true) := by
  obtain ⟨t, he, hspec⟩ := h.advance_end
  have ht : q.settle.tail = t := by
    unfold ReceiveQueue.settle ReceiveQueue.fillPrimaryQueue
    rw [fill_tail, he]
  rw [ht]
  exact hspec

namespace Clean

theorem construct {mtu cap wnd session : Nat} (hdvd : cap ∣ 2 ^ 24) (hw : wnd < cap)
    (h : ReceiveQueue.construct mtu cap wnd session = some q) : q.Clean := by
  have hfits := Fits.construct hw h
  unfold ReceiveQueue.construct at h
  rw [if_pos ⟨hw.le, Nat.zero_lt_of_lt hw⟩] at h
  cases h
  refine ⟨hfits, hdvd, ?_, fun hlt => absurd hlt (lt_irrefl 0)⟩
  intro k hk
  cases hk

theorem post (h : q.Clean) (hroom : q.hasRoom = true) : q.post.Clean := by
  have hfits := (h.fits.post (q := q) ⟨rfl, le_refl _, fun _ _ _ _ => ⟨rfl, rfl⟩⟩ hroom).1
  have hlt := (h.fits.room hroom).1
  have htl := h.fits.tailLe
  refine ⟨hfits, h.capDvd, ?_, ?_⟩
  · intro k hk
    simp only [ReceiveQueue.post] at hk ⊢
    by_cases hkh : k = q.head % q.queueCapacity
    · exact ⟨q.head, htl, by omega, hkh.symm⟩
    · rw [Ring.set_of_ne _ _ hkh] at hk
      obtain ⟨i, h1, h2, h3⟩ := h.idle k hk
      exact ⟨i, h1, by omega, h3⟩
  · intro _
    simp only [requestAt, ReceiveQueue.post]
    rcases Nat.eq_or_lt_of_le htl with he | hlt'
    · rw [he, Ring.set_same]
    · rw [Ring.set_of_ne _ _ (Ring.slot_ne (le_refl _) (by omega) htl hlt hlt'.ne)]
      exact h.front hlt'

/-- The request that is posted waits. -/
theorem received_posted (h : q.Clean) (hroom : q.hasRoom = true) (j : Nat) : q.post.Received j ↔ q.Received j := by
  have htl := h.fits.tailLe
  rcases Nat.lt_or_ge j q.head with hj | hj
  · exact received_post h.fits hroom hj
  · refine iff_of_false ?_ (h.fits.not_received hj)
    rintro (hlt | ⟨hlt, hoff⟩)
    · simp only [ReceiveQueue.post] at hlt
      omega
    · obtain rfl : j = q.head := by
        simp only [ReceiveQueue.post] at hlt
        omega
      simp only [ReceiveQueue.post, Ring.set_same] at hoff
      cases hoff

theorem fillPrimaryQueue (h : q.Clean) :
    q.fillPrimaryQueue.Clean ∧ ∀ j, q.fillPrimaryQueue.Received j ↔ q.Received j := by
  refine fill_rule (P := fun x => x.Clean ∧ ∀ j, x.Received j ↔ q.Received j) ?_ (q.wndSize + 1) q ⟨h, fun _ => Iff.rfl⟩
  rintro x ⟨hx, hr⟩ hroom
  exact ⟨hx.post hroom, fun j => (hx.received_posted hroom j).trans (hr j)⟩

/-- The end of `markCompleted`, which needs all of the invariant but its last part. -/
theorem settle (hfits : q.Fits) (hdvd : q.queueCapacity ∣ 2 ^ 24)
    (hidle : ∀ k, (q.requests k).inflight = true → ∃ i, q.tail ≤ i ∧ i < q.head ∧ i % q.queueCapacity = k) :
    q.settle.Clean ∧ ∀ j, q.settle.Received j ↔ q.Received j := by
  have hl16 := hfits.len16
  have hlc := hfits.lenCap
  obtain ⟨t, he, hlo, hhi, hdone, hstop⟩ := hfits.advance_end
  have hadvanced : Clean { q with tail := t } := by
    refine ⟨⟨hfits.wndCap, hfits.wnd16, hhi, by simp only; omega, by simp only; omega⟩, hdvd, ?_, hstop⟩
    intro k hk
    obtain ⟨i, h1, h2, rfl⟩ := hidle k hk
    refine ⟨i, ?_, h2, rfl⟩
    by_contra hlt
    have hoff := hdone i h1 (not_le.1 hlt)
    unfold requestAt at hoff
    rw [hk] at hoff
    cases hoff
  have hfill := hadvanced.fillPrimaryQueue
  rw [← he] at hfill
  refine ⟨hfill.1, fun j => ?_⟩
  rcases Nat.lt_or_ge j q.head with hj | hj
  · exact received_settle hfits hj
  · refine iff_of_false (fun hr => ?_) (hfits.not_received hj)
    have hr := (hfill.2 j).1 hr
    rw [he] at hr
    exact hadvanced.fits.not_received hj hr

theorem push (h : q.Clean) {bufs : List Buffer} {ret : Int} {sn : Nat} {q' : ReceiveQueue}
    (hp : q.push bufs = some (ret, sn, q')) : q'.Clean ∧ ∀ j, q'.Received j ↔ q.Received j := by
  obtain ⟨ids, sq, -, -, -, rfl⟩ := push_some hp
  exact fillPrimaryQueue (q := { q with secondaryQueue := sq })
    ⟨⟨h.fits.wndCap, h.fits.wnd16, h.fits.tailLe, h.fits.lenCap, h.fits.len16⟩, h.capDvd, h.idle, h.front⟩

theorem setWndSize (h : q.Clean) {w : Nat} (hw : w % 2 ^ 16 < q.queueCapacity) : (q.setWndSize w).Clean :=
  ⟨h.fits.setWndSize hw, h.capDvd, h.idle, h.front⟩

/-! ## One packet -/

theorem requestOf_shortSN (h : q.Clean) (i : Nat) : q.requestOf (shortSN i) = q.requestAt i := by
  unfold requestOf requestAt shortSN
  rw [Nat.mod_mod_of_dvd _ h.capDvd]

theorem inflight_of_awaits {i : Nat} (h : q.Awaits i) : (q.requestAt i).inflight = true := by
  by_contra hf
  exact h.2.2.2 (.inr ⟨h.2.1, Bool.eq_false_iff.2 hf⟩)

/-- A number stands for at most one request that waits. -/
theorem awaits_unique (h : q.Clean) {i j : Nat} (hi : q.Awaits i) (hj : q.Awaits j)
    (he : shortSN i = shortSN j) : i = j := by
  have hl16 := h.fits.len16
  obtain ⟨hi1, hi2, -⟩ := hi
  obtain ⟨hj1, hj2, -⟩ := hj
  exact Serial.eq_of_mod_eq he (by omega) (by omega)

/-- A number that passes the window test and finds an outstanding slot is the number of a request that waits: the slots
of the indices of the window beyond `head_` are not outstanding. -/
theorem awaits_of_inflight (h : q.Clean) {sn : Nat} (hsn : sn < 2 ^ 24) (hw : q.inWindow sn = true)
    (hf : (q.requestOf sn).inflight = true) : ∃ i, q.Awaits i ∧ shortSN i = sn := by
  have hwc := h.fits.wndCap
  have hw16 := h.fits.wnd16
  have hlc := h.fits.lenCap
  rw [inWindow_eq, Serial.inWindow_iff (by omega) hsn] at hw
  obtain ⟨i, h1, h2, rfl⟩ := hw
  have hf : (q.requestAt i).inflight = true := by
    rw [← h.requestOf_shortSN]
    exact hf
  obtain ⟨j, hj1, hj2, hj3⟩ := h.idle _ hf
  obtain rfl : j = i := Serial.eq_of_mod_eq hj3 (by omega) (by omega)
  refine ⟨j, ⟨h1, hj2, h2, ?_⟩, rfl⟩
  rintro (hlt | ⟨-, hoff⟩)
  · omega
  · exact absurd hf (Bool.eq_false_iff.1 hoff)

/-- The requests that are done when the advance loop starts, against where it ends. -/
theorem settled_at {x : ReceiveQueue} (hx : x.Fits) (htail : x.tail = q.tail) (hhead : x.head = q.head)
    {done : Nat → Prop} (hold : ∀ j, q.Received j → done j) (hdone : ∀ j, x.Received j ↔ done j) :
    (q.tail ≤ x.settle.tail ∧ x.settle.tail ≤ q.head) ∧ (∀ j < x.settle.tail, done j) ∧
      (x.settle.tail < q.head → ¬ done x.settle.tail) := by
  obtain ⟨hlo, hhi, hbelow, hstop⟩ := hx.settle_tail
  rw [htail] at hlo hbelow
  rw [hhead] at hhi hstop
  refine ⟨⟨hlo, hhi⟩, ?_, ?_⟩
  · intro j hj
    rcases Nat.lt_or_ge j q.tail with hlt | hge
    · exact hold j (.inl hlt)
    · exact (hdone j).1 (.inr ⟨hhead ▸ hj.trans_le hhi, hbelow j hge hj⟩)
  · intro hlt hd
    rcases (hdone _).2 hd with hlt' | ⟨-, hoff⟩
    · rw [htail] at hlt'
      omega
    · exact absurd (hstop hlt) (Bool.eq_false_iff.1 hoff)

/-- A packet with the number of a request that waits. -/
theorem places_taken (h : q.Clean) {p : Packet} {i : Nat} (hi : q.Awaits i) (hsn : shortSN i = p.sn)
    (hlen : p.payload.length = (q.requestAt i).length) :
    q.markCompleted p = some ((q.complete p).settle, some ⟨(q.requestAt i).addr, p.payload⟩) ∧
      (q.complete p).settle.Clean ∧ q.Places p (q.complete p).settle (some ⟨(q.requestAt i).addr, p.payload⟩) := by
  have hfits : ReceiveQueue.Fits (q.complete p) :=
    ⟨h.fits.wndCap, h.fits.wnd16, h.fits.tailLe, h.fits.lenCap, h.fits.len16⟩
  have hreq : q.requestOf p.sn = q.requestAt i := by rw [← hsn, h.requestOf_shortSN]
  have hslot : p.sn % q.queueCapacity = i % q.queueCapacity := by
    rw [← hsn]
    exact Nat.mod_mod_of_dvd _ h.capDvd
  have hwindow : q.inWindow p.sn = true := hsn ▸ inWindow_shortSN h.fits hi.1 hi.2.2.1
  have hone : ∀ j, q.Awaits j → shortSN j = p.sn → j = i := fun j hj hjs => h.awaits_unique hj hi (hjs.trans hsn.symm)
  have hreceived : ∀ j, (q.complete p).Received j ↔ q.Received j ∨ (q.Awaits j ∧ shortSN j = p.sn) := by
    intro j
    rcases Nat.lt_or_ge j q.head with hj | hj
    · rw [received_complete h.fits hi.1 hi.2.1 hslot hj]
      refine or_congr_right ⟨?_, fun hx => hone j hx.1 hx.2⟩
      rintro rfl
      exact ⟨hi, hsn⟩
    · refine iff_of_false (hfits.not_received hj) ?_
      rintro (hr | ⟨hj', -⟩)
      · exact h.fits.not_received hj hr
      · exact absurd hj'.2.1 (not_lt.2 hj)
  obtain ⟨htail, hbelow, hstop⟩ := settled_at (q := q) hfits rfl rfl (fun j hj => .inl hj) hreceived
  have hidle : ∀ k, ((q.complete p).requests k).inflight = true →
      ∃ i, q.tail ≤ i ∧ i < q.head ∧ i % q.queueCapacity = k := by
    intro k hk
    simp only [ReceiveQueue.complete] at hk
    by_cases hks : k = p.sn % q.queueCapacity
    · subst hks
      rw [Ring.set_same] at hk
      cases hk
    · rw [Ring.set_of_ne _ _ hks] at hk
      exact h.idle k hk
  obtain ⟨hclean, hsettle⟩ := settle hfits h.capDvd hidle
  refine ⟨markCompleted_take hwindow hreq (inflight_of_awaits hi) hlen, hclean, ?_, ?_, ?_, htail, hbelow, hstop⟩
  · intro m
    constructor
    · rintro ⟨⟩
      exact ⟨i, hi, hsn, rfl⟩
    · rintro ⟨j, hj, hjs, rfl⟩
      rw [hone j hj hjs]
  · intro j hj hjs
    rw [hone j hj hjs]
    exact hlen
  · intro j
    rw [hsettle j]
    exact hreceived j

/-- A packet with any other number. -/
theorem places_ignored (h : q.Clean) {p : Packet} (hsn : p.sn < 2 ^ 24) (hnone : ∀ i, q.Awaits i → shortSN i ≠ p.sn) :
    ∃ q', q.markCompleted p = some (q', none) ∧ q'.Clean ∧ q.Places p q' none := by
  have hreceived : ∀ j, q.Received j ↔ q.Received j ∨ (q.Awaits j ∧ shortSN j = p.sn) := by
    intro j
    rw [or_iff_left fun hx => hnone j hx.1 hx.2]
  have hmove : ∀ m : MemMove, none = some m ↔ ∃ i, q.Awaits i ∧ shortSN i = p.sn ∧
      m = ⟨(q.requestAt i).addr, p.payload⟩ := by
    intro m
    constructor
    · rintro ⟨⟩
    · rintro ⟨i, hi, his, -⟩
      exact absurd his (hnone i hi)
  have hfit : ∀ i, q.Awaits i → shortSN i = p.sn → p.payload.length = (q.requestAt i).length :=
    fun i hi his => absurd his (hnone i hi)
  rcases Bool.eq_false_or_eq_true (q.inWindow p.sn) with hw | hw
  · have hf : (q.requestOf p.sn).inflight = false := by
      by_contra hf
      obtain ⟨i, hi, his⟩ := h.awaits_of_inflight hsn hw (Bool.not_eq_false _ ▸ hf)
      exact hnone i hi his
    obtain ⟨htail, hbelow, hstop⟩ := settled_at h.fits rfl rfl (fun j hj => .inl hj) hreceived
    obtain ⟨hclean, hsettle⟩ := settle h.fits h.capDvd h.idle
    refine ⟨q.settle, ?_, hclean, hmove, hfit, ?_, htail, hbelow, hstop⟩
    · unfold ReceiveQueue.markCompleted
      simp [hw, hf]
    · intro j
      rw [hsettle j]
      exact hreceived j
  · refine ⟨q, ?_, h, hmove, hfit, hreceived, ⟨le_refl _, h.fits.tailLe⟩, fun j hj => .inl (.inl hj), ?_⟩
    · unfold ReceiveQueue.markCompleted
      simp [hw]
    · rintro hlt ((hlt' | ⟨-, hoff⟩) | ⟨hi, his⟩)
      · exact absurd hlt' (lt_irrefl _)
      · exact absurd (h.front hlt) (Bool.eq_false_iff.1 hoff)
      · exact hnone _ hi his

/-- Every packet, if its length is the one of the request that waits for it. -/
theorem places (h : q.Clean) {p : Packet} (hsn : p.sn < 2 ^ 24)
    (hlen : ∀ i, q.Awaits i → shortSN i = p.sn → p.payload.length = (q.requestAt i).length) :
    ∃ q' mv, q.markCompleted p = some (q', mv) ∧ q'.Clean ∧ q.Places p q' mv := by
  by_cases hx : ∃ i, q.Awaits i ∧ shortSN i = p.sn
  · obtain ⟨i, hi, his⟩ := hx
    exact ⟨_, _, h.places_taken hi his (hlen i hi his)⟩
  · push Not at hx
    obtain ⟨q', hm⟩ := h.places_ignored hsn hx
    exact ⟨q', none, hm⟩

/-- A packet that does not make the queue abort has the length of the request that waits for it. -/
theorem length_of_markCompleted (h : q.Clean) {p : Packet} {r : ReceiveQueue × Option MemMove}
    (hm : q.markCompleted p = some r)
    {i : Nat} (hi : q.Awaits i) (his : shortSN i = p.sn) : p.payload.length = (q.requestAt i).length := by
  by_contra hne
  have hreq : q.requestOf p.sn = q.requestAt i := by rw [← his, h.requestOf_shortSN]
  have hwindow : q.inWindow p.sn = true := his ▸ inWindow_shortSN h.fits hi.1 hi.2.2.1
  rw [markCompleted_eq_none.2 ⟨hwindow, hreq ▸ inflight_of_awaits hi, hreq ▸ hne⟩] at hm
  cases hm

end Clean

/-! ## Whole runs -/

/-- The index of the window a number stands for, if it stands for one. -/
def designated (q : ReceiveQueue) (sn : Nat) : Nat := q.tail + (sn + 2 ^ 24 - shortSN q.tail) % 2 ^ 24

/-- A queue and the payloads it has written, each with the index of its request. -/
structure Placed where
  queue : ReceiveQueue
  writes : List (Nat × MemMove)

namespace Placed

inductive Event where
  | push (sliceList : List Buffer)
  | packet (p : Packet)
  | setWndSize (wndSize : Nat)
  deriving DecidableEq, Repr

def step (s : Placed) : Event → Option Placed
  | .push sliceList => (s.queue.push sliceList).map fun r => ⟨r.2.2, s.writes⟩
  | .packet p => (s.queue.markCompleted p).map fun r =>
      ⟨r.1, s.writes ++ (r.2.map fun m => (s.queue.designated p.sn, m)).toList⟩
  | .setWndSize wndSize => some ⟨s.queue.setWndSize wndSize, s.writes⟩

/-- Numbers have 24 bits, and the window stays below the capacity. -/
def ok (s : Placed) : Event → Prop
  | .push _ => True
  | .packet p => p.sn < 2 ^ 24
  | .setWndSize wndSize => wndSize % 2 ^ 16 < s.queue.queueCapacity

instance (s : Placed) (e : Event) : Decidable (s.ok e) := by
  cases e <;> unfold ok <;> infer_instance

/-- The requests received are those written, each once. -/
structure Inv (s : Placed) : Prop where
  clean : s.queue.Clean
  once : (s.writes.map Prod.fst).Nodup
  written : ∀ j, s.queue.Received j ↔ j ∈ s.writes.map Prod.fst

end Placed

theorem designated_shortSN {i : Nat} (h1 : q.tail ≤ i) (h2 : i < q.tail + 2 ^ 24) : q.designated (shortSN i) = i := by
  unfold designated shortSN
  omega

namespace Placed

variable {s s' : Placed}

theorem Inv.packet (h : s.Inv) {p : Packet} (hsn : p.sn < 2 ^ 24) (hs : s.step (.packet p) = some s') : s'.Inv := by
  obtain ⟨⟨q', mv⟩, hm, rfl⟩ := Option.map_eq_some_iff.1 hs
  obtain ⟨q1, mv1, hm1, hclean, hplaces⟩ := h.clean.places hsn fun i hi his => h.clean.length_of_markCompleted hm hi his
  obtain ⟨rfl, rfl⟩ : q' = q1 ∧ mv = mv1 := Prod.mk.inj (Option.some.inj (hm.symm.trans hm1))
  have hl16 := h.clean.fits.len16
  cases mv with
  | none =>
    have hnone : ∀ j, ¬ (s.queue.Awaits j ∧ shortSN j = p.sn) := by
      rintro j ⟨hj, hjs⟩
      have hmv := (hplaces.move _).2 ⟨j, hj, hjs, rfl⟩
      cases hmv
    simp only [Option.map_none, Option.toList_none, List.append_nil]
    refine ⟨hclean, h.once, fun j => ?_⟩
    rw [hplaces.received j, or_iff_left (hnone j)]
    exact h.written j
  | some m =>
    obtain ⟨i, hi, his, rfl⟩ := (hplaces.move m).1 rfl
    have hindex : s.queue.designated p.sn = i := by
      obtain ⟨h1, h2, -⟩ := hi
      rw [← his]
      exact designated_shortSN h1 (by omega)
    have hnew : i ∉ s.writes.map Prod.fst := fun hmem => hi.2.2.2 ((h.written i).2 hmem)
    simp only [Option.map_some, Option.toList_some, hindex]
    refine ⟨hclean, ?_, fun j => ?_⟩
    · rw [List.map_append]
      exact List.Nodup.append h.once (List.nodup_singleton i) (by simpa using hnew)
    · rw [hplaces.received j, h.written j]
      simp only [List.map_append, List.map_cons, List.map_nil, List.mem_append, List.mem_singleton]
      refine or_congr_right ⟨fun hj => h.clean.awaits_unique hj.1 hi (hj.2.trans his.symm), ?_⟩
      rintro rfl
      exact ⟨hi, his⟩

theorem Inv.step (h : s.Inv) {e : Event} (hok : s.ok e) (hs : s.step e = some s') : s'.Inv := by
  cases e with
  | push sliceList =>
    obtain ⟨⟨ret, sn, q'⟩, hp, rfl⟩ := Option.map_eq_some_iff.1 hs
    obtain ⟨hclean, hreceived⟩ := h.clean.push hp
    exact ⟨hclean, h.once, fun j => (hreceived j).trans (h.written j)⟩
  | packet p => exact h.packet hok hs
  | setWndSize w =>
    obtain rfl := Option.some.inj hs
    exact ⟨h.clean.setWndSize hok, h.once, h.written⟩

/-- In every state that pushes, window changes and packets of any numbers lead to, no request has been written twice
and the requests written are those received. The next packet is written exactly if it has the number of a request of
the window that waits, and to that request; `tail_` then is the first index that is not received, or `head_`. -/
theorem placed_once (k : Nat) (hk : k ≤ 24) (mtu wnd session : Nat) (hwnd : wnd < 2 ^ k) (q0 : ReceiveQueue)
    (es : List Event) (s : Placed) (h0 : ReceiveQueue.construct mtu (2 ^ k) wnd session = some q0)
    (hrun : Runs.Run step ok ⟨q0, []⟩ es s) :
    (s.writes.map Prod.fst).Nodup ∧ (∀ j, s.queue.Received j ↔ j ∈ s.writes.map Prod.fst) ∧
      ∀ p : Packet, p.sn < 2 ^ 24 →
        (∀ i, s.queue.Awaits i → shortSN i = p.sn → p.payload.length = (s.queue.requestAt i).length) →
        ∃ q' mv, s.queue.markCompleted p = some (q', mv) ∧ s.queue.Places p q' mv := by
  have hstart : Inv ⟨q0, []⟩ := by
    have hclean := Clean.construct (pow_dvd_pow 2 hk) hwnd h0
    refine ⟨hclean, List.nodup_nil, fun j => iff_of_false ?_ List.not_mem_nil⟩
    unfold ReceiveQueue.construct at h0
    rw [if_pos ⟨hwnd.le, Nat.zero_lt_of_lt hwnd⟩] at h0
    cases h0
    exact hclean.fits.not_received (Nat.zero_le j)
  have hinv := hrun.invariant (P := Inv) hstart fun _ _ _ h hok hs => h.step hok hs
  refine ⟨hinv.once, hinv.written, fun p hsn hlen => ?_⟩
  obtain ⟨q', mv, hm, -, hplaces⟩ := hinv.clean.places hsn hlen
  exact ⟨q', mv, hm, hplaces⟩

/-- Two of three fragments arrive, the later one first and then once more. The next copy is not written either. -/
theorem duplicates_not_written : ∃ q0 s q' mv,
    ReceiveQueue.construct 50 (2 ^ 2) 2 0 = some q0 ∧
    Runs.Run step ok ⟨q0, []⟩ [.push [⟨100, 6⟩], .packet ⟨0, 0, 0, 1, 0, false, [7, 8]⟩,
      .packet ⟨0, 0, 0, 0, 0, false, [5, 6]⟩,
      .packet ⟨0, 0, 0, 1, 0, false, [7, 8]⟩] s ∧
    s.queue.tail = 2 ∧ s.writes = [(1, ⟨102, [7, 8]⟩), (0, ⟨100, [5, 6]⟩)] ∧
    s.queue.markCompleted ⟨0, 0, 0, 1, 0, false, [7, 8]⟩ = some (q', mv) ∧
    s.queue.Places ⟨0, 0, 0, 1, 0, false, [7, 8]⟩ q' mv := by
  obtain ⟨s0, s, h0, hrun, ht⟩ := Runs.exists_run_of_start step ok
    ((ReceiveQueue.construct 50 (2 ^ 2) 2 0).map fun q : ReceiveQueue => ⟨q, []⟩)
    [.push [⟨100, 6⟩], .packet ⟨0, 0, 0, 1, 0, false, [7, 8]⟩, .packet ⟨0, 0, 0, 0, 0, false, [5, 6]⟩,
      .packet ⟨0, 0, 0, 1, 0, false, [7, 8]⟩]
    (fun s => decide (s.queue.tail = 2 ∧ s.queue.head = 3 ∧ s.writes = [(1, ⟨102, [7, 8]⟩), (0, ⟨100, [5, 6]⟩)]))
    (by decide +kernel)
  obtain ⟨q0, hq0, rfl⟩ := Option.map_eq_some_iff.1 h0
  obtain ⟨htail, hhead, hwrites⟩ := of_decide_eq_true ht
  obtain ⟨-, -, hnext⟩ := placed_once 2 (by norm_num) 50 2 0 (by norm_num) q0 _ s hq0 hrun
  obtain ⟨q', mv, hm, hplaces⟩ := hnext ⟨0, 0, 0, 1, 0, false, [7, 8]⟩ (by norm_num) (by
    rintro i ⟨h1, h2, -⟩ his
    obtain rfl : i = 2 := by omega
    cases his)
  exact ⟨q0, s, q', mv, hq0, hrun, htail, hwrites, hm, hplaces⟩

end Placed

end RapidTransfer.ReceiveQueue
