/-
The window a receive queue advertises. Three places of the source encode one limit: the fill loop posts requests while
`head_ - tail_ <= wnd_size_`, `markCompleted` accepts the numbers of `[tail_, tail_ + wnd_size_)`, and
`getAvailableWndSize` subtracts `head_ - tail_` from `wnd_size_` in 16 bits. The loop goes one request too far: when
more fragments wait than the window holds, it posts `wnd_size_ + 1` of them, the last is refused on arrival, and the
advertised window wraps around to 65535 (`window_overfilled`).

A queue stays within its window exactly as long as no push brings more fragments than the window has left
(`window_kept_iff`); then nothing waits in the secondary queue, so a packet cannot overfill it either.
-/
import RapidTransfer.Lib.Runs
import RapidTransfer.Queue.Receive

namespace RapidTransfer.ReceiveQueue

/-- The calls on a queue whose window does not change. -/
inductive Call
  | push (bufs : List Buffer)
  | markCompleted (p : Packet)

def call (q : ReceiveQueue) : Call → Option ReceiveQueue
  | .push bufs => (q.push bufs).map (·.2.2)
  | .markCompleted p => (q.markCompleted p).map (·.1)

/-- The posted requests fit the window, a packet for each of them is acceptable, and what is advertised is what is
left. -/
structure InWindow (q : ReceiveQueue) : Prop where
  posted : q.tail ≤ q.head ∧ q.head - q.tail ≤ q.wndSize
  acceptable : ∀ i, q.tail ≤ i → i < q.head → q.inWindow (shortSN i) = true
  available : q.getAvailableWndSize = q.wndSize - (q.head - q.tail)

/-- The window has room for the fragments of a push. -/
def HasRoomFor (q : ReceiveQueue) : Call → Prop
  | .push bufs => q.head - q.tail + (fragments q.secondaryQueue.fragmentSize bufs).length ≤ q.wndSize
  | .markCompleted _ => True

instance (q : ReceiveQueue) : ∀ c, Decidable (q.HasRoomFor c)
  | .push _ => inferInstanceAs (Decidable (_ ≤ _))
  | .markCompleted _ => .isTrue trivial

/-- The limit of the loop is all there is to it. -/
theorem inWindow_of_posted {q : ReceiveQueue} (hw : q.wndSize < 2 ^ 16) (h1 : q.tail ≤ q.head)
    (h2 : q.head - q.tail ≤ q.wndSize) : q.InWindow where
  posted := ⟨h1, h2⟩
  acceptable := by
    intro i hlo hhi
    rw [inWindow_eq, Serial.inWindow_iff (by omega) (shortSN_lt i)]
    exact ⟨i, hlo, by omega, rfl⟩
  available := by
    unfold getAvailableWndSize sub64
    omega

/-! ## The fill loop -/

section Fill

variable {q : ReceiveQueue}

theorem hasRoom_iff (hwf : q.secondaryQueue.WF) (h1 : q.tail ≤ q.head) (h2 : q.head < q.tail + 2 ^ 64) :
    q.hasRoom = true ↔ q.secondaryQueue.pending ≠ [] ∧ q.head - q.tail ≤ q.wndSize := by
  have hsub : sub64 q.head q.tail = q.head - q.tail := by unfold sub64; omega
  rw [hasRoom, Bool.and_eq_true, SecondaryQueue.hasRemainingFragment_iff hwf.size, decide_eq_true_eq, hsub]

/-- With room for all that waits, all of it is posted. -/
theorem fill_of_fits : ∀ (fuel : Nat) (q : ReceiveQueue), q.secondaryQueue.WF → q.wndSize < 2 ^ 16 → q.tail ≤ q.head →
    q.head - q.tail + q.secondaryQueue.pending.length ≤ q.wndSize → q.secondaryQueue.pending.length ≤ fuel →
    (fill fuel q).head = q.head + q.secondaryQueue.pending.length ∧ (fill fuel q).secondaryQueue.WF ∧
      (fill fuel q).secondaryQueue.pending = []
  | 0, q, hwf, _, _, _, hfuel => by
    have hnil := List.eq_nil_of_length_eq_zero (Nat.le_zero.1 hfuel)
    exact ⟨by rw [hnil]; rfl, hwf, hnil⟩
  | fuel + 1, q, hwf, hw, h1, hfits, hfuel => by
    unfold fill
    cases hp : q.secondaryQueue.pending with
    | nil =>
      rw [if_neg (by rw [hasRoom_iff hwf h1 (by omega)]; exact fun h => h.1 hp)]
      exact ⟨rfl, hwf, hp⟩
    | cons x xs =>
      rw [hp, List.length_cons] at hfits hfuel
      rw [if_pos ((hasRoom_iff hwf h1 (by omega)).2 ⟨by rw [hp]; exact List.cons_ne_nil x xs, by omega⟩)]
      obtain ⟨-, hwf', hpend⟩ := SecondaryQueue.popFragment_spec hwf hp
      have hpost : q.post.secondaryQueue.pending = xs := hpend
      obtain ⟨hhead, hrest⟩ := fill_of_fits fuel q.post hwf' hw (Nat.le_succ_of_le h1)
        (by rw [hpost]; simp only [post]; omega) (by rw [hpost]; omega)
      refine ⟨?_, hrest⟩
      rw [hhead, hpost, List.length_cons]
      simp only [post]
      omega

/-- With less, one request more than the window holds. -/
theorem fill_of_excess : ∀ (fuel : Nat) (q : ReceiveQueue), q.secondaryQueue.WF → q.wndSize < 2 ^ 16 → q.tail ≤ q.head →
    q.head - q.tail ≤ q.wndSize + 1 → q.wndSize < q.head - q.tail + q.secondaryQueue.pending.length →
    q.wndSize < q.head - q.tail + fuel → (fill fuel q).head = q.tail + q.wndSize + 1
  | 0, q, _, _, h1, h2, _, hfuel => by
    simp only [fill]
    omega
  | fuel + 1, q, hwf, hw, h1, h2, hmore, hfuel => by
    unfold fill
    by_cases hroom : q.hasRoom = true
    · rw [if_pos hroom]
      obtain ⟨hne, hle⟩ := (hasRoom_iff hwf h1 (by omega)).1 hroom
      obtain ⟨x, xs, hp⟩ := List.exists_cons_of_ne_nil hne
      rw [hp, List.length_cons] at hmore
      obtain ⟨-, hwf', hpend⟩ := SecondaryQueue.popFragment_spec hwf hp
      have hpost : q.post.secondaryQueue.pending = xs := hpend
      exact fill_of_excess fuel q.post hwf' hw (Nat.le_succ_of_le h1) (by simp only [post]; omega)
        (by rw [hpost]; simp only [post]; omega) (by simp only [post]; omega)
    · rw [if_neg hroom]
      rw [hasRoom_iff hwf h1 (by omega)] at hroom
      -- the loop stops at the window, since something waits unless the window is over
      by_cases hnil : q.secondaryQueue.pending = []
      · rw [hnil, List.length_nil] at hmore
        omega
      · have : ¬q.head - q.tail ≤ q.wndSize := fun hle => hroom ⟨hnil, hle⟩
        omega

end Fill

/-! ## Calls -/

/-- The window is a 16-bit number that the posted requests fit, and nothing waits for a slot. -/
structure Settled (q : ReceiveQueue) : Prop where
  wnd16 : q.wndSize < 2 ^ 16
  tailLe : q.tail ≤ q.head
  posted : q.head - q.tail ≤ q.wndSize
  drained : q.secondaryQueue.sliceList = [] ∧ q.secondaryQueue.offset = 0

theorem Settled.inWindow {q : ReceiveQueue} (h : q.Settled) : q.InWindow :=
  inWindow_of_posted h.wnd16 h.tailLe h.posted

theorem fill_of_drained {q : ReceiveQueue} (h : q.secondaryQueue.sliceList = []) (fuel : Nat) : fill fuel q = q := by
  cases fuel with
  | zero => rfl
  | succ fuel => simp [fill, hasRoom, SecondaryQueue.hasRemainingFragment, h]

/-- `tail_` moves, and no further than `head_`. -/
theorem Settled.settle {q : ReceiveQueue} (h : q.Settled) : q.settle.Settled := by
  have hadv : (advance (sub64 q.head q.tail) q).Settled := by
    refine advance_rule (P := Settled) (fun q hq hne _ => ?_) _ q h
    have htail := hq.tailLe
    have hposted := hq.posted
    exact ⟨hq.wnd16, by simp only; omega, by simp only; omega, hq.drained⟩
  unfold ReceiveQueue.settle fillPrimaryQueue
  rw [fill_of_drained hadv.drained.1]
  exact hadv

theorem Settled.markCompleted {q q' : ReceiveQueue} {p : Packet} {mv : Option MemMove} (h : q.Settled)
    (hm : q.markCompleted p = some (q', mv)) : q'.Settled := by
  rcases markCompleted_cases hm with ⟨-, rfl, -⟩ | ⟨-, -, rfl, -⟩ | ⟨-, -, -, rfl, -⟩
  · exact h
  · exact h.settle
  · exact Settled.settle (q := q.complete p) ⟨h.wnd16, h.tailLe, h.posted, h.drained⟩

theorem fill_wndSize (fuel : Nat) (q : ReceiveQueue) : (fill fuel q).wndSize = q.wndSize :=
  fill_rule (P := fun q' => q'.wndSize = q.wndSize) (fun _ hq _ => hq) fuel q rfl

theorem drained_of_pending {s : SecondaryQueue} (hwf : s.WF) (h : s.pending = []) :
    s.sliceList = [] ∧ s.offset = 0 := by
  have hnil : s.sliceList = [] := by
    by_contra hne
    have hrem : s.hasRemainingFragment = true := by simp [SecondaryQueue.hasRemainingFragment, hne]
    exact (SecondaryQueue.hasRemainingFragment_iff hwf.size).1 hrem h
  refine ⟨hnil, ?_⟩
  rcases hwf.offset with h0 | ⟨slice, rest, hs, -⟩
  · exact h0
  · rw [hnil] at hs
    cases hs

/-- What a push leaves waiting, before the fill loop. -/
theorem Settled.pushed {q : ReceiveQueue} {bufs : List Buffer} {ids : Nat × Nat} {s : SecondaryQueue} (h : q.Settled)
    (hs : q.secondaryQueue.push bufs = some (ids, s)) :
    (s.WF ∧ s.pending = fragments q.secondaryQueue.fragmentSize bufs) ∨
      (bufs = [] ∧ s.sliceList = [] ∧ s.offset = 0) := by
  obtain ⟨hslices, hoffset⟩ := h.drained
  rcases Nat.eq_zero_or_pos q.secondaryQueue.fragmentSize with hz | hpos
  · obtain ⟨hb, rfl⟩ := SecondaryQueue.push_of_size_zero hz hs
    exact .inr ⟨hb, hslices, hoffset⟩
  · left
    obtain ⟨hwf, hpend⟩ := SecondaryQueue.pending_push (q := q.secondaryQueue) ⟨hpos, .inl hoffset⟩ hs
    refine ⟨hwf, ?_⟩
    rw [hpend, SecondaryQueue.pending, hslices]
    rfl

/-- A list with room for it is posted whole. -/
theorem Settled.push {q q' : ReceiveQueue} {bufs : List Buffer} {ret : Int} {sn : Nat} (h : q.Settled)
    (hp : q.push bufs = some (ret, sn, q')) (hroom : q.HasRoomFor (.push bufs)) : q'.Settled := by
  obtain ⟨ids, s, hs, -, -, rfl⟩ := push_some hp
  have hposted := h.posted
  have htail := h.tailLe
  rcases h.pushed hs with ⟨hwf, hpend⟩ | ⟨-, hdrained⟩
  · have hfits : q.head - q.tail + s.pending.length ≤ q.wndSize := by rw [hpend]; exact hroom
    obtain ⟨hhead, hwf', hnil⟩ := fill_of_fits (q.wndSize + 1) { q with secondaryQueue := s } hwf h.wnd16 htail hfits
      (by dsimp only; omega)
    have ht := fill_tail (q.wndSize + 1) { q with secondaryQueue := s }
    have hw := fill_wndSize (q.wndSize + 1) { q with secondaryQueue := s }
    dsimp only at hhead ht hw
    exact ⟨by rw [fillPrimaryQueue, hw]; exact h.wnd16, by rw [fillPrimaryQueue, ht, hhead]; omega,
      by rw [fillPrimaryQueue, ht, hhead, hw]; omega, drained_of_pending hwf' hnil⟩
  · rw [fillPrimaryQueue, fill_of_drained hdrained.1]
    exact ⟨h.wnd16, htail, hposted, hdrained⟩

/-- A list without is posted up to one request too many. -/
theorem Settled.push_excess {q q' : ReceiveQueue} {bufs : List Buffer} {ret : Int} {sn : Nat} (h : q.Settled)
    (hp : q.push bufs = some (ret, sn, q')) (hroom : ¬q.HasRoomFor (.push bufs)) : q'.wndSize < q'.head - q'.tail := by
  obtain ⟨ids, s, hs, -, -, rfl⟩ := push_some hp
  have hposted := h.posted
  rcases h.pushed hs with ⟨hwf, hpend⟩ | ⟨rfl, -⟩
  · have hmore : q.wndSize < q.head - q.tail + s.pending.length := by rw [hpend]; exact not_le.1 hroom
    have hhead := fill_of_excess (q.wndSize + 1) { q with secondaryQueue := s } hwf h.wnd16 h.tailLe
      (by dsimp only; omega) hmore (by dsimp only; omega)
    have ht := fill_tail (q.wndSize + 1) { q with secondaryQueue := s }
    have hw := fill_wndSize (q.wndSize + 1) { q with secondaryQueue := s }
    dsimp only at hhead ht hw
    rw [fillPrimaryQueue, hhead, ht, hw]
    omega
  · exact absurd hposted hroom

/-! ## Runs -/

theorem settled_construct {mtuSize queueCapacity wndSize session : Nat} {q : ReceiveQueue}
    (h : construct mtuSize queueCapacity wndSize session = some q) : q.Settled := by
  unfold construct at h
  split at h
  · cases h
    exact ⟨Nat.mod_lt _ (by decide), le_refl 0, Nat.zero_le _, rfl, rfl⟩
  · cases h

theorem Settled.call {q q' : ReceiveQueue} {c : Call} (h : q.Settled) (hroom : q.HasRoomFor c)
    (hs : q.call c = some q') : q'.Settled := by
  cases c with
  | push bufs =>
    obtain ⟨⟨ret, sn, q1⟩, hp, rfl⟩ := Option.map_eq_some_iff.1 hs
    exact h.push hp hroom
  | markCompleted p =>
    obtain ⟨⟨q1, mv⟩, hm, rfl⟩ := Option.map_eq_some_iff.1 hs
    exact h.markCompleted hm

/-- From a fresh queue, as long as every push finds room: the posted requests are in the window, and the next call
keeps them there iff it finds room too. -/
theorem window_kept_iff {mtuSize queueCapacity wndSize session : Nat} {q0 q : ReceiveQueue}
    (h0 : construct mtuSize queueCapacity wndSize session = some q0) {cs : List Call}
    (h : Runs.Run call HasRoomFor q0 cs q) :
    q.InWindow ∧ ∀ c q', q.call c = some q' → (q'.InWindow ↔ q.HasRoomFor c) := by
  have hset : q.Settled := h.invariant (P := Settled) (settled_construct h0) fun _ _ _ hq hroom hs => hq.call hroom hs
  refine ⟨hset.inWindow, fun c q' hs => ⟨fun hin => ?_, fun hroom => (hset.call hroom hs).inWindow⟩⟩
  by_contra hroom
  cases c with
  | push bufs =>
    obtain ⟨⟨ret, sn, q1⟩, hp, rfl⟩ := Option.map_eq_some_iff.1 hs
    exact absurd hin.posted.2 (not_le.2 (hset.push_excess hp hroom))
  | markCompleted p => exact hroom trivial

/-- A push that fills the window, and a packet for its last request. -/
theorem window_kept_when_full : ∃ q0 q, construct 50 4 2 0 = some q0 ∧
    Runs.Run call HasRoomFor q0 [.push [⟨100, 4⟩], .markCompleted ⟨0, 0, 0, 1, 5, false, [7, 8]⟩] q ∧
    q.head - q.tail = q.wndSize ∧ q.InWindow := by
  obtain ⟨q0, q, h0, hrun, htest⟩ := Runs.exists_run_of_start call HasRoomFor (construct 50 4 2 0)
    [.push [⟨100, 4⟩], .markCompleted ⟨0, 0, 0, 1, 5, false, [7, 8]⟩]
    (fun q => decide (q.head - q.tail = q.wndSize)) (by decide)
  exact ⟨q0, q, h0, hrun, of_decide_eq_true htest, (window_kept_iff h0 hrun).1⟩

/-- One fragment more than the window holds: the third request is posted, its packet is not acceptable, and the window
advertised is 65535. -/
theorem window_overfilled : ∃ q0 q, construct 50 4 2 0 = some q0 ∧
    Runs.Run call (fun _ _ => True) q0 [.push [⟨100, 6⟩]] q ∧ q.wndSize < q.head - q.tail ∧
    (q.tail ≤ 2 ∧ 2 < q.head ∧ q.inWindow (shortSN 2) = false) ∧ q.getAvailableWndSize = 65535 := by
  obtain ⟨q0, q, h0, hrun, htest⟩ := Runs.exists_run_of_start call (fun _ _ => True) (construct 50 4 2 0)
    [.push [⟨100, 6⟩]] (fun q => decide (q.wndSize < q.head - q.tail ∧
      (q.tail ≤ 2 ∧ 2 < q.head ∧ q.inWindow (shortSN 2) = false) ∧ q.getAvailableWndSize = 65535)) (by decide)
  exact ⟨q0, q, h0, hrun, of_decide_eq_true htest⟩

end RapidTransfer.ReceiveQueue
