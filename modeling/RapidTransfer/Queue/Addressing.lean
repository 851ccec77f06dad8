/-
Where a packet lands. `fillPrimaryQueue` puts request `i` into slot `i % capacity`, `markCompleted` looks for it
in slot `SHORT_SN(i) % capacity`. The two are one slot exactly when the capacity divides what the short number
leaves out of `i`; then the packet for `i` is written to the memory of request `i` and marks it received, and
otherwise it is not (`lands_iff`). `wrong_request` is a ring of three slots that gets there.
-/
import RapidTransfer.Queue.Slots

namespace RapidTransfer

theorem shortSN_slot_iff (cap i : Nat) : shortSN i % cap = i % cap ↔ cap ∣ 2 ^ 24 * (i / 2 ^ 24) := by
  have hsplit := Nat.div_add_mod i (2 ^ 24)
  have hdiff : i - shortSN i = 2 ^ 24 * (i / 2 ^ 24) := by
    unfold shortSN
    omega
  rw [← hdiff]
  exact Nat.modEq_iff_dvd' (Nat.mod_le _ _)

namespace ReceiveQueue

/-- Request `j` has been received: `tail_` is past it, or it is posted and no longer outstanding. -/
def Received (q : ReceiveQueue) (j : Nat) : Prop :=
  j < q.tail ∨ (j < q.head ∧ (q.requests (j % q.queueCapacity)).inflight = false)

/-- The packet is written to the memory of request `i`, which is marked as received, and no other is. -/
def Lands (q : ReceiveQueue) (i : Nat) (p : Packet) : Prop :=
  ∃ q', q.markCompleted p = some (q', some ⟨(q.requests (i % q.queueCapacity)).addr, p.payload⟩) ∧
    ∀ j < q.head, q'.Received j ↔ q.Received j ∨ j = i

/-! ## What has been received -/

variable {q : ReceiveQueue}

theorem received_post (h : q.Fits) (hroom : q.hasRoom = true) {j : Nat} (hj : j < q.head) :
    q.post.Received j ↔ q.Received j := by
  have hlt := (h.room hroom).1
  have htl := h.tailLe
  rcases Nat.lt_or_ge j q.tail with htail | htail
  · exact ⟨fun _ => .inl htail, fun _ => .inl htail⟩
  · have hslot := Ring.slot_ne htail (by omega) htl hlt hj.ne
    unfold Received
    simp only [post, Ring.set_of_ne _ _ hslot, hj, Nat.lt_succ_of_lt hj]

theorem received_advance {j : Nat} (hne : q.tail ≠ q.head) (htl : q.tail ≤ q.head)
    (hdone : (q.requests (q.tail % q.queueCapacity)).inflight = false) :
    Received { q with tail := q.tail + 1 } j ↔ q.Received j := by
  unfold Received
  simp only
  constructor
  · rintro (hlt | hj)
    · rcases Nat.lt_succ_iff_lt_or_eq.1 hlt with hlt | rfl
      · exact .inl hlt
      · exact .inr ⟨by omega, hdone⟩
    · exact .inr hj
  · rintro (hlt | hj)
    · exact .inl (by omega)
    · exact .inr hj

/-- The end of `markCompleted` receives nothing more. -/
theorem received_settle (h : q.Fits) {j : Nat} (hj : j < q.head) : q.settle.Received j ↔ q.Received j := by
  have hadv : (advance (sub64 q.head q.tail) q).Fits ∧ q.Kept (advance (sub64 q.head q.tail) q) ∧
      ((advance (sub64 q.head q.tail) q).Received j ↔ q.Received j) := by
    refine advance_rule (P := fun x => x.Fits ∧ q.Kept x ∧ (x.Received j ↔ q.Received j)) ?_ _ q
      ⟨h, ⟨rfl, le_refl _, fun _ _ _ _ => ⟨rfl, rfl⟩⟩, Iff.rfl⟩
    rintro x ⟨hf, hk, hr⟩ hne hdone
    obtain ⟨hf', hk'⟩ := hf.advance hk hne
    exact ⟨hf', hk', (received_advance hne hf.tailLe hdone).trans hr⟩
  have hfill := fill_rule (P := fun x => (x.Fits ∧ q.Kept x) ∧ (x.Received j ↔ q.Received j)) ?_
    ((advance (sub64 q.head q.tail) q).wndSize + 1) _ ⟨⟨hadv.1, hadv.2.1⟩, hadv.2.2⟩
  · exact hfill.2
  · rintro x ⟨⟨hf, hk⟩, hr⟩ hroom
    exact ⟨hf.post hk hroom, (received_post hf hroom (hj.trans_le hk.head)).trans hr⟩

theorem received_complete (h : q.Fits) {p : Packet} {i j : Nat} (h1 : q.tail ≤ i) (h2 : i < q.head)
    (hslot : p.sn % q.queueCapacity = i % q.queueCapacity) (hj : j < q.head) :
    (q.complete p).Received j ↔ q.Received j ∨ j = i := by
  have hlen := h.lenCap
  unfold Received
  simp only [complete, hslot]
  rcases eq_or_ne j i with rfl | hji
  · simp [h2]
  · rcases Nat.lt_or_ge j q.tail with htail | htail
    · simp [htail]
    · rw [Ring.set_of_ne _ _ (Ring.slot_ne htail (by omega) h1 (by omega) hji)]
      simp [hji]

/-! ## One packet -/

/-- The short number of an index of the window passes the test. -/
theorem inWindow_shortSN (h : q.Fits) {i : Nat} (h1 : q.tail ≤ i) (h2 : i < q.tail + q.wndSize) :
    q.inWindow (shortSN i) = true := by
  have hw16 := h.wnd16
  rw [inWindow_eq, Serial.inWindow_iff (by omega) (shortSN_lt i)]
  exact ⟨i, h1, h2, rfl⟩

/-- The packet with the number of an index of the window is looked for in the slot of its short number. -/
theorem lands_iff_slot (h : q.Fits) {i : Nat} {p : Packet} (h1 : q.tail ≤ i) (h2 : i < q.head)
    (h3 : i < q.tail + q.wndSize) (hnew : ¬ q.Received i) (hsn : p.sn = shortSN i)
    (hlen : p.payload.length = (q.requests (i % q.queueCapacity)).length) :
    q.Lands i p ↔ shortSN i % q.queueCapacity = i % q.queueCapacity := by
  have hinflight : (q.requests (i % q.queueCapacity)).inflight = true := by
    rcases Bool.eq_false_or_eq_true (q.requests (i % q.queueCapacity)).inflight with ht | hf
    · exact ht
    · exact absurd (.inr ⟨h2, hf⟩) hnew
  have hc : ReceiveQueue.Fits (q.complete p) := ⟨h.wndCap, h.wnd16, h.tailLe, h.lenCap, h.len16⟩
  constructor
  · rintro ⟨q', hm, hreceived⟩
    by_contra hslot
    obtain ⟨-, -, hmv⟩ | ⟨-, -, -, hmv⟩ | ⟨-, -, -, rfl, -⟩ := markCompleted_cases hm
    · cases hmv
    · cases hmv
    · -- another slot was completed, so request `i` is as outstanding as before
      have hi := (received_settle hc h2).1 ((hreceived i h2).2 (.inr rfl))
      unfold Received at hi
      simp only [complete, hsn] at hi
      rw [Ring.set_of_ne _ _ (Ne.symm hslot), hinflight] at hi
      rcases hi with hlt | ⟨-, hf⟩
      · omega
      · cases hf
  · intro hslot
    have hreq : q.requestOf p.sn = q.requests (i % q.queueCapacity) := by
      unfold requestOf
      rw [hsn, hslot]
    have hwindow := hsn ▸ inWindow_shortSN h h1 h3
    refine ⟨(q.complete p).settle, markCompleted_take hwindow hreq hinflight hlen, fun j hj => ?_⟩
    rw [received_settle hc hj]
    exact received_complete h h1 h2 (hsn ▸ hslot) hj

/-! ## Requests that are received in order -/

/-- The fill loop goes on until there is no room. -/
theorem hasRoom_fill : ∀ (n : Nat) (q : ReceiveQueue), q.wndSize < 2 ^ 16 → q.wndSize < sub64 q.head q.tail + n →
    (fill n q).hasRoom = false
  | 0, q, _, hn => by
    unfold hasRoom fill
    simp
    omega
  | n + 1, q, hw, hn => by
    unfold fill
    split
    · rename_i hroom
      have hle := of_decide_eq_true (Bool.and_eq_true_iff.1 hroom).2
      have hsucc : sub64 (q.head + 1) q.tail = sub64 q.head q.tail + 1 := by unfold sub64 at *; omega
      exact hasRoom_fill n q.post hw (by simp only [post]; omega)
    · rename_i hroom
      exact Bool.eq_false_iff.2 hroom

/-- `tail_` moves over a request that is done and stops at the next, which is not. -/
theorem advance_one {n : Nat} (hlt : q.tail < q.head) (hdone : (q.requests (q.tail % q.queueCapacity)).inflight = false)
    (hstop : q.tail + 1 < q.head → (q.requests ((q.tail + 1) % q.queueCapacity)).inflight = true) :
    advance (n + 1) q = { q with tail := q.tail + 1 } := by
  unfold advance
  rw [if_neg hlt.ne, if_neg (by simp [hdone])]
  cases n with
  | zero => rfl
  | succ n =>
    unfold advance
    simp only
    split
    · rfl
    · rename_i hne
      rw [if_pos (hstop (by omega))]

/-- The fragments `frags` are posted as far as the window goes, and none of the posted ones is received. -/
structure Streaming (frags : List Buffer) (q : ReceiveQueue) : Prop where
  fits : q.Fits
  wf : q.secondaryQueue.WF
  pend : q.secondaryQueue.pending = frags.drop q.head
  slots : Ring.Holds q.requests q.queueCapacity q.tail q.head fun i r =>
    ∃ b, frags[i]? = some b ∧ r = ⟨b.addr, b.length, true⟩

namespace Streaming

variable {frags : List Buffer}

theorem post (h : Streaming frags q) (hroom : q.hasRoom = true) : Streaming frags q.post := by
  have hne := (Bool.and_eq_true_iff.1 hroom).1
  rw [SecondaryQueue.hasRemainingFragment_iff h.wf.size, h.pend, ne_eq, List.drop_eq_nil_iff, not_le] at hne
  have hp := h.pend
  rw [List.drop_eq_getElem_cons hne] at hp
  obtain ⟨hpop, hwf, hpend⟩ := SecondaryQueue.popFragment_spec h.wf hp
  refine ⟨(h.fits.post (q := q) ⟨rfl, le_refl _, fun _ _ _ _ => ⟨rfl, rfl⟩⟩ hroom).1, hwf, hpend, ?_⟩
  exact h.slots.push (h.fits.room hroom).1 ⟨_, List.getElem?_eq_getElem hne, by rw [hpop]⟩

theorem fillPrimaryQueue (h : Streaming frags q) :
    Streaming frags q.fillPrimaryQueue ∧ q.fillPrimaryQueue.hasRoom = false ∧ q.fillPrimaryQueue.tail = q.tail ∧
      q.fillPrimaryQueue.wndSize = q.wndSize ∧ q.fillPrimaryQueue.queueCapacity = q.queueCapacity := by
  have hfill := fill_rule (P := fun x => Streaming frags x ∧ x.tail = q.tail ∧ x.wndSize = q.wndSize ∧
    x.queueCapacity = q.queueCapacity) (fun _ hx hroom => ⟨hx.1.post hroom, hx.2⟩) (q.wndSize + 1) q ⟨h, rfl, rfl, rfl⟩
  exact ⟨hfill.1, hasRoom_fill (q.wndSize + 1) q h.fits.wnd16 (by omega), hfill.2⟩

/-- A queue that is filled up has everything posted, or one request more than the window. -/
theorem head_of_full (h : Streaming frags q) (hfull : q.hasRoom = false) :
    frags.length ≤ q.head ∨ q.tail + q.wndSize < q.head := by
  have hl := h.fits.len16
  rw [or_iff_not_imp_left, not_le]
  intro hlt
  by_contra hle
  have hne : q.secondaryQueue.hasRemainingFragment = true := by
    rw [SecondaryQueue.hasRemainingFragment_iff h.wf.size, h.pend, ne_eq, List.drop_eq_nil_iff]
    omega
  unfold hasRoom at hfull
  rw [hne, sub64_of_le h.fits.tailLe (by omega), Bool.true_and] at hfull
  exact hle (by have := of_decide_eq_false hfull; omega)

theorem construct {mtu cap wnd session : Nat} (hf : 0 < fragmentSizeOf mtu) (hw : wnd < cap)
    (h0 : ReceiveQueue.construct mtu cap wnd session = some q) :
    Streaming [] q ∧ q.secondaryQueue.fragmentSize = fragmentSizeOf mtu ∧ q.head = 0 ∧ q.tail = 0 ∧
      q.wndSize = wnd % 2 ^ 16 ∧ q.queueCapacity = cap := by
  have hfits := Fits.construct hw h0
  unfold ReceiveQueue.construct at h0
  rw [if_pos ⟨hw.le, Nat.zero_lt_of_lt hw⟩] at h0
  cases h0
  exact ⟨⟨hfits, SecondaryQueue.construct_wf hf, rfl, fun i _ hi => absurd hi (Nat.not_lt_zero i)⟩, rfl, rfl, rfl, rfl,
    rfl⟩

theorem push (h : Streaming frags q) (bufs : List Buffer) (hle : q.head ≤ frags.length) :
    ∃ sn q', q.push bufs = some (0, sn, q') ∧
      Streaming (frags ++ fragments q.secondaryQueue.fragmentSize bufs) q' ∧ q'.hasRoom = false ∧ q'.tail = q.tail ∧
      q'.wndSize = q.wndSize ∧ q'.queueCapacity = q.queueCapacity := by
  obtain ⟨ids, sq, hs⟩ : ∃ ids sq, q.secondaryQueue.push bufs = some (ids, sq) :=
    ⟨_, _, SecondaryQueue.push_eq h.wf.size bufs⟩
  obtain ⟨hwf, hpend⟩ := SecondaryQueue.pending_push h.wf hs
  have hfits := h.fits
  have hstream : Streaming (frags ++ fragments q.secondaryQueue.fragmentSize bufs) { q with secondaryQueue := sq } := by
    refine ⟨⟨hfits.wndCap, hfits.wnd16, hfits.tailLe, hfits.lenCap, hfits.len16⟩, hwf, ?_, ?_⟩
    · rw [hpend, h.pend, List.drop_append_of_le_length hle]
    · refine h.slots.mono fun i r _ _ hr => ?_
      obtain ⟨b, hb, rfl⟩ := hr
      exact ⟨b, by rw [List.getElem?_append_left (List.getElem?_eq_some_iff.1 hb).1]; exact hb, rfl⟩
  refine ⟨shortSN ids.2, _, ?_, hstream.fillPrimaryQueue⟩
  unfold ReceiveQueue.push
  simp only [hs]

/-- The request at `tail_` is received. -/
theorem next (h : Streaming frags q) (hlt : q.tail < q.head) (hw : 0 < q.wndSize) {p : Packet}
    (hsn : p.sn = shortSN q.tail) (hslot : p.sn % q.queueCapacity = q.tail % q.queueCapacity)
    (hlen : ∀ b, frags[q.tail]? = some b → p.payload.length = b.length) :
    ∃ q' mv, q.markCompleted p = some (q', mv) ∧ Streaming frags q' ∧ q'.hasRoom = false ∧ q'.tail = q.tail + 1 ∧
      q'.wndSize = q.wndSize ∧ q'.queueCapacity = q.queueCapacity := by
  have hfits := h.fits
  have hlc := hfits.lenCap
  have hl16 := hfits.len16
  obtain ⟨b, hb, hreq⟩ := h.slots q.tail (le_refl _) hlt
  have hother : ∀ i, q.tail + 1 ≤ i → i < q.head →
      (q.complete p).requests (i % q.queueCapacity) = q.requests (i % q.queueCapacity) := by
    intro i h1 h2
    simp only [complete, hslot]
    exact Ring.set_of_ne _ _ (Ring.slot_ne (by omega : q.tail ≤ i) (by omega) (le_refl _) (by omega) (by omega))
  -- `tail_` moves over the request and stops at the next
  have hadv : advance (sub64 q.head q.tail) (q.complete p) = { q.complete p with tail := q.tail + 1 } := by
    obtain ⟨n, hn⟩ : ∃ n, sub64 q.head q.tail = n + 1 :=
      ⟨q.head - q.tail - 1, by rw [sub64_of_le hfits.tailLe (by omega)]; omega⟩
    rw [hn]
    refine advance_one (q := q.complete p) hlt ?_ fun hlt' => ?_
    · simp only [complete, hslot, Ring.set_same]
    · obtain ⟨b', -, hb'⟩ := h.slots (q.tail + 1) (Nat.le_succ _) hlt'
      show ((q.complete p).requests ((q.tail + 1) % q.queueCapacity)).inflight = true
      rw [hother (q.tail + 1) (le_refl _) hlt', hb']
  have hstream : Streaming frags { q.complete p with tail := q.tail + 1 } := by
    refine ⟨⟨hfits.wndCap, hfits.wnd16, hlt, ?_, ?_⟩, h.wf, h.pend, fun i h1 h2 => ?_⟩
    · simp only [complete]; omega
    · simp only [complete]; omega
    · show ∃ b, _ ∧ (q.complete p).requests (i % q.queueCapacity) = _
      rw [hother i h1 h2]
      exact h.slots i (Nat.le_of_succ_le h1) h2
  have hwindow := hsn ▸ inWindow_shortSN hfits (le_refl _) (by omega)
  have hrequest : q.requestOf p.sn = ⟨b.addr, b.length, true⟩ := by
    unfold requestOf
    rw [hslot, hreq]
  refine ⟨(q.complete p).settle, _, markCompleted_take hwindow hrequest rfl (hlen b hb), ?_⟩
  unfold settle
  rw [show (q.complete p).head = q.head from rfl, show (q.complete p).tail = q.tail from rfl, hadv]
  exact hstream.fillPrimaryQueue

end Streaming

end ReceiveQueue

namespace Queue

/-- The packet that carries the two bytes of fragment `i`. -/
def packetAt (i : Nat) : Packet := ⟨0, 0, 0, shortSN i, 0, false, [0, 0]⟩

/-- Packets that arrive in order, one for each request. -/
theorem streaming_run (frags : List Buffer) (hlen : ∀ b ∈ frags, b.length = 2) {q : ReceiveQueue} (hw : 0 < q.wndSize)
    (h : q.Streaming frags) (hfull : q.hasRoom = false) (h0 : q.tail = 0) : ∀ n, n ≤ frags.length → n ≤ 2 ^ 24 →
    ∃ q', Runs.Run apply smallWindow (.receive q)
        ((List.range n).map fun i => .markCompleted (-1) (packetAt i) ⟨[]⟩) (.receive q') ∧
      q'.Streaming frags ∧ q'.hasRoom = false ∧ q'.tail = n ∧ q'.wndSize = q.wndSize ∧
      q'.queueCapacity = q.queueCapacity
  | 0, _, _ => ⟨q, .nil, h, hfull, h0, rfl, rfl⟩
  | n + 1, hn, hn24 => by
    obtain ⟨q1, hrun, h1, hfull1, rfl, hw1, hcap1⟩ := streaming_run frags hlen hw h hfull h0 n (by omega) (by omega)
    have hlt : q1.tail < q1.head := by
      rcases h1.head_of_full hfull1 with hle | hle <;> omega
    have hshort := shortSN_of_lt (x := q1.tail) (by omega)
    obtain ⟨q2, mv, hm, h2, hfull2, htail2, hw2, hcap2⟩ := h1.next hlt (by omega) (p := packetAt q1.tail) rfl
      (congrArg (· % q1.queueCapacity) hshort) fun b hb => (hlen b (List.mem_of_getElem? hb)).symm
    refine ⟨q2, ?_, h2, hfull2, htail2, hw2.trans hw1, hcap2.trans hcap1⟩
    rw [List.range_succ, List.map_append]
    exact .snoc hrun (shortSN_lt _) (by simp [apply, markCompleted, hm])

/-- In every run with windows smaller than the ring, the packet for an index of the window that is not received
lands at its request exactly when the capacity divides the part of the index that its short number leaves out. -/
theorem lands_iff (raw : PacketHandle) (mtu cap wnd session : Nat) (hw : wnd < cap) (q0 : Queue) (q : ReceiveQueue)
    (es : List QueueOp) (h0 : construct .receive raw mtu cap wnd session = some q0)
    (hrun : Runs.Run apply smallWindow q0 es (.receive q)) (i : Nat) (p : Packet) (h1 : q.tail ≤ i) (h2 : i < q.head)
    (h3 : i < q.tail + q.wndSize) (hnew : ¬ q.Received i) (hsn : p.sn = shortSN i)
    (hlen : p.payload.length = (q.requests (i % cap)).length) :
    q.Lands i p ↔ cap ∣ 2 ^ 24 * (i / 2 ^ 24) := by
  have hstart : q0.Fits ∧ q0.queueCapacity = cap := by
    refine ⟨fits_construct (by simp) hw h0, ?_⟩
    obtain ⟨r, hr, rfl⟩ := Option.map_eq_some_iff.1 h0
    unfold ReceiveQueue.construct at hr
    rw [if_pos ⟨hw.le, Nat.zero_lt_of_lt hw⟩] at hr
    cases hr
    rfl
  obtain ⟨hfits, hcap⟩ := hrun.invariant (P := fun q => q.Fits ∧ q.queueCapacity = cap) hstart
    fun _ _ _ h hok hs => ⟨(fits_apply h.1 hok hs).1, (fits_apply h.1 hok hs).2.queueCapacity.trans h.2⟩
  have hcap : q.queueCapacity = cap := hcap
  rw [← shortSN_slot_iff, ← hcap]
  exact ReceiveQueue.lands_iff_slot hfits h1 h2 h3 hnew hsn (hcap ▸ hlen)

/-- A receive queue for fragments of two bytes. -/
def twoByteRequests (cap wnd : Nat) : Option Queue :=
  construct .receive ⟨0, 0, 0, 0, 0, false, false, false, none, 0, 0⟩ 50 cap wnd 0

/-- Its fragments, pushed in one buffer. -/
def twoBytes (total : Nat) : List Buffer := fragments 2 [⟨100, 2 * total⟩]

theorem getElem?_twoBytes {total i : Nat} (hi : i < total) : (twoBytes total)[i]? = some ⟨100 + 2 * i, 2⟩ := by
  have hcount : i < pieceCount 2 (2 * total) := by
    unfold pieceCount
    omega
  simp only [twoBytes, fragments_cons, fragments_nil, List.append_nil, pieces, List.getElem?_map,
    List.getElem?_range hcount, Option.map_some]
  congr 2 <;> omega

theorem length_twoBytes {total : Nat} (h : 0 < total) : (twoBytes total).length = total := by
  simp only [twoBytes, fragments_cons, fragments_nil, List.append_nil, length_pieces, pieceCount]
  omega

theorem length_of_mem_twoBytes {total : Nat} (h : 0 < total) {b : Buffer} (hb : b ∈ twoBytes total) : b.length = 2 := by
  obtain ⟨i, hi⟩ := List.getElem?_of_mem hb
  have hlt := (List.getElem?_eq_some_iff.1 hi).1
  rw [getElem?_twoBytes (by rwa [length_twoBytes h] at hlt)] at hi
  cases hi
  rfl

/-- A ring of three slots. After `2^24` fragments that arrive in order, the packet for the next one is looked for in
the slot of the request two further on, and its bytes are written there. -/
theorem wrong_request : ∃ q0 q q', twoByteRequests 3 2 = some q0 ∧
    Runs.Run apply smallWindow q0 (.push [⟨100, 2 * (2 ^ 24 + 3)⟩] ⟨[]⟩ ::
      (List.range (2 ^ 24)).map fun i => .markCompleted (-1) (packetAt i) ⟨[]⟩) (.receive q) ∧
    q.tail = 2 ^ 24 ∧ q.tail < q.head ∧ 0 < q.wndSize ∧ q.queueCapacity = 3 ∧
    q.requests (q.tail % 3) = ⟨100 + 2 * 2 ^ 24, 2, true⟩ ∧
    q.markCompleted (packetAt (2 ^ 24)) = some (q', some ⟨100 + 2 * (2 ^ 24 + 2), [0, 0]⟩) := by
  obtain ⟨r0, hr0⟩ : ∃ r, ReceiveQueue.construct 50 3 2 0 = some r := ⟨_, rfl⟩
  obtain ⟨h0, hsize, hhead0, htail0, hw0, hcap0⟩ := ReceiveQueue.Streaming.construct (by decide) (by decide) hr0
  obtain ⟨sn, r1, hp, h1, hfull1, htail1, hw1, hcap1⟩ := h0.push [⟨100, 2 * (2 ^ 24 + 3)⟩] hhead0.le
  rw [hsize, show fragmentSizeOf 50 = 2 by decide, List.nil_append] at h1
  have hlen : (twoBytes (2 ^ 24 + 3)).length = 2 ^ 24 + 3 := length_twoBytes (by omega)
  obtain ⟨q, hrun, hq, hfull, htail, hw, hcap⟩ := streaming_run (twoBytes (2 ^ 24 + 3))
    (fun b hb => length_of_mem_twoBytes (by omega) hb) (by omega) h1 hfull1 (htail1.trans htail0) (2 ^ 24)
    (by omega) (le_refl _)
  have hhead : 2 ^ 24 + 3 ≤ q.head := by
    rcases hq.head_of_full hfull with hle | hle <;> omega
  obtain ⟨b, hb, hreq⟩ := hq.slots (2 ^ 24) (by omega) (by omega)
  obtain ⟨b', hb', hreq'⟩ := hq.slots (2 ^ 24 + 2) (by omega) (by omega)
  rw [getElem?_twoBytes (by omega)] at hb hb'
  cases hb
  cases hb'
  rw [hcap, hcap1, hcap0] at hreq hreq'
  have hwindow := ReceiveQueue.inWindow_shortSN hq.fits (i := 2 ^ 24) (by omega) (by omega)
  have hrequest : q.requestOf (packetAt (2 ^ 24)).sn = ⟨100 + 2 * (2 ^ 24 + 2), 2, true⟩ := by
    unfold ReceiveQueue.requestOf
    rw [hcap, hcap1, hcap0]
    exact hreq'
  refine ⟨.receive r0, q, (q.complete (packetAt (2 ^ 24))).settle, ?_, .cons trivial ?_ hrun, htail, by omega, by omega,
    by omega, htail ▸ hreq, ReceiveQueue.markCompleted_take hwindow hrequest rfl rfl⟩
  · simp only [twoByteRequests, construct, hr0, Option.map_some]
  · simp only [apply, push, hp, Option.map_some]

/-- The receive queue, where the queue is one. -/
def asReceive : Queue → Option ReceiveQueue
  | .receive q => some q
  | .send _ => none
  | .mcast _ => none

/-- The second of three requests is received first. -/
theorem second_request_lands : ∃ q0 q, twoByteRequests 4 2 = some q0 ∧
    Runs.Run apply smallWindow q0 [.push [⟨100, 6⟩] ⟨[]⟩] (.receive q) ∧ q.tail = 0 ∧ q.head = 3 ∧
    q.Lands 1 (packetAt 1) := by
  obtain ⟨q0, q, h0, hrun, ht⟩ := Runs.exists_run_of_start apply smallWindow (twoByteRequests 4 2)
    [.push [⟨100, 6⟩] ⟨[]⟩]
    (fun q : Queue => q.asReceive.any fun q : ReceiveQueue => decide (q.tail = 0 ∧ q.head = 3 ∧ q.wndSize = 2 ∧
      q.queueCapacity = 4 ∧ q.requests 1 = ⟨102, 2, true⟩)) (by decide +kernel)
  cases q with
  | send => cases ht
  | mcast => cases ht
  | receive q =>
    obtain ⟨htail, hhead, hw, hcap, hreq⟩ := of_decide_eq_true ht
    refine ⟨q0, q, h0, hrun, htail, hhead, ?_⟩
    refine (lands_iff _ 50 4 2 0 (by decide) q0 q _ h0 hrun 1 (packetAt 1) (by omega) (by omega) (by omega) ?_ rfl ?_).2
      ⟨0, rfl⟩
    · rintro (hlt | ⟨-, hdone⟩)
      · omega
      · rw [hcap, hreq] at hdone
        cases hdone
    · rw [hreq]
      rfl

end Queue

end RapidTransfer
