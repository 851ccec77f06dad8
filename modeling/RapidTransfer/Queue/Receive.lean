/-
The receive queue (`ReceiveQueue` of `packet_manager.cpp`): a ring of posted requests filled from a
secondary queue, the window test on 24-bit sequence numbers, and the advance of `tail_` over the
received prefix.

A received payload leaves the queue as a `MemMove`, the `memmove` into the user's buffer;
`markCompleted` is `none` where the source calls `abort`. `markCompleted_cases` says everything it
can do.
-/
import RapidTransfer.Queue.Send

namespace RapidTransfer

/-- A `memmove` of `bytes` to `dst`. -/
structure MemMove where
  dst : Nat
  bytes : List UInt8
  deriving DecidableEq, Repr

/-- The effect of a move on memory. -/
def MemMove.apply (m : MemMove) (mem : Nat → UInt8) : Nat → UInt8 := fun a =>
  if m.dst ≤ a ∧ a < m.dst + m.bytes.length then m.bytes.getD (a - m.dst) 0 else mem a

theorem MemMove.bytesAt_apply_self (m : MemMove) (mem : Nat → UInt8) :
    bytesAt (m.apply mem) m.dst m.bytes.length = m.bytes := by
  refine List.ext_getElem (by simp) fun k h1 h2 => ?_
  simp [bytesAt, MemMove.apply, h2]

theorem MemMove.bytesAt_apply_of_disjoint (m : MemMove) (mem : Nat → UInt8) {addr n : Nat}
    (h : addr + n ≤ m.dst ∨ m.dst + m.bytes.length ≤ addr) : bytesAt (m.apply mem) addr n = bytesAt mem addr n := by
  refine List.map_congr_left fun k hk => ?_
  have := List.mem_range.1 hk
  exact if_neg (by omega)

/-- `ReceiveQueue::Request` -/
structure RecvRequest where
  addr : Nat
  length : Nat
  inflight : Bool
  deriving DecidableEq, Repr

structure ReceiveQueue where
  queueCapacity : Nat
  session : Nat
  head : Nat
  tail : Nat
  wndSize : Nat
  requests : Nat → RecvRequest
  secondaryQueue : SecondaryQueue
  lastPacketTs : Nat

namespace ReceiveQueue

/-- As for the send queues, a queue without slots is left out. -/
def construct (mtuSize queueCapacity wndSize session : Nat) : Option ReceiveQueue :=
  if wndSize ≤ queueCapacity ∧ 0 < queueCapacity then
    some
      { queueCapacity := queueCapacity
        session := session
        head := 0
        tail := 0
        wndSize := wndSize % 2 ^ 16
        requests := fun _ => ⟨0, 0, false⟩
        secondaryQueue := SecondaryQueue.construct (fragmentSizeOf mtuSize)
        lastPacketTs := 0 }
  else none

def setWndSize (q : ReceiveQueue) (wndSize : Nat) : ReceiveQueue :=
  { q with wndSize := min (wndSize % 2 ^ 16) (q.queueCapacity % 2 ^ 16) }

/-- The loop condition of `fillPrimaryQueue`. -/
def hasRoom (q : ReceiveQueue) : Bool :=
  q.secondaryQueue.hasRemainingFragment && decide (sub64 q.head q.tail ≤ q.wndSize)

/-- The popped fragment becomes the request of `head_`. -/
def post (q : ReceiveQueue) : ReceiveQueue :=
  { q with
    head := q.head + 1
    requests := Ring.set q.requests (q.head % q.queueCapacity)
      ⟨(q.secondaryQueue.popFragment).1.addr, (q.secondaryQueue.popFragment).1.length, true⟩
    secondaryQueue := (q.secondaryQueue.popFragment).2 }

/-- The loop of `fillPrimaryQueue`. -/
def fill : Nat → ReceiveQueue → ReceiveQueue
  | 0, q => q
  | fuel + 1, q => if q.hasRoom then fill fuel q.post else q

def fillPrimaryQueue (q : ReceiveQueue) : ReceiveQueue := fill (q.wndSize + 1) q

/-- `push`: the return value, `last_sn` and the queue. -/
def push (q : ReceiveQueue) (sliceList : List Buffer) : Option (Int × Nat × ReceiveQueue) :=
  match q.secondaryQueue.push sliceList with
  | none => none
  | some (fragmentId, secondaryQueue) =>
    some (0, shortSN fragmentId.2, fillPrimaryQueue { q with secondaryQueue := secondaryQueue })

theorem push_some {q q' : ReceiveQueue} {bufs : List Buffer} {ret : Int} {sn : Nat}
    (h : q.push bufs = some (ret, sn, q')) :
    ∃ ids sq, q.secondaryQueue.push bufs = some (ids, sq) ∧ sn = shortSN ids.2 ∧ ret = 0 ∧
      q' = fillPrimaryQueue { q with secondaryQueue := sq } := by
  unfold push at h
  split at h
  · cases h
  · rename_i ids sq hsq
    cases h
    exact ⟨ids, sq, hsq, rfl, rfl, rfl⟩

/-- The sequence number passes the window test of `markCompleted`. -/
def inWindow (q : ReceiveQueue) (sn : Nat) : Bool :=
  let wndStart := shortSN q.tail
  let wndEnd := shortSN (q.tail + q.wndSize)
  if wndStart ≤ wndEnd then !(decide (sn < wndStart) || decide (wndEnd ≤ sn))
  else !(decide (sn < wndStart) && decide (wndEnd ≤ sn))

/-- The request a sequence number designates. -/
def requestOf (q : ReceiveQueue) (sn : Nat) : RecvRequest := q.requests (sn % q.queueCapacity)

/-- The designated request is done with. -/
def complete (q : ReceiveQueue) (p : Packet) : ReceiveQueue :=
  { q with
    requests := Ring.set q.requests (p.sn % q.queueCapacity) { q.requestOf p.sn with inflight := false }
    lastPacketTs := max q.lastPacketTs p.ts }

/-- The loop that moves `tail_` over the requests that are done. -/
def advance : Nat → ReceiveQueue → ReceiveQueue
  | 0, q => q
  | fuel + 1, q =>
    if q.tail = q.head then q
    else if (q.requests (q.tail % q.queueCapacity)).inflight then q
    else advance fuel { q with tail := q.tail + 1 }

/-- The end of `markCompleted`: advance `tail_`, then refill. -/
def settle (q : ReceiveQueue) : ReceiveQueue := fillPrimaryQueue (advance (sub64 q.head q.tail) q)

/-- `markCompleted`: the queue and the move it makes, `none` where it aborts on a length mismatch. -/
def markCompleted (q : ReceiveQueue) (p : Packet) : Option (ReceiveQueue × Option MemMove) :=
  if !q.inWindow p.sn then some (q, none)
  else
    let request := q.requestOf p.sn
    if request.inflight then
      if p.payload.length ≠ request.length then none
      else some (settle (q.complete p), some ⟨request.addr, p.payload⟩)
    else some (settle q, none)

def getNextSN (q : ReceiveQueue) : Nat := shortSN q.head
def getAckSN (q : ReceiveQueue) : Nat := shortSN q.tail
def getLastTS (q : ReceiveQueue) : Nat := q.lastPacketTs
def getAvailableWndSize (q : ReceiveQueue) : Nat := sub64 q.wndSize (sub64 q.head q.tail) % 2 ^ 16

/-! ## The loops -/

theorem inWindow_eq (q : ReceiveQueue) (sn : Nat) : q.inWindow sn = Serial.inWindow (2 ^ 24) q.tail q.wndSize sn :=
  rfl

/-- The invariant rule of the fill loop. -/
theorem fill_rule {P : ReceiveQueue → Prop} (hpost : ∀ q, P q → q.hasRoom = true → P q.post) :
    ∀ (fuel : Nat) (q : ReceiveQueue), P q → P (fill fuel q)
  | 0, _, hq => hq
  | fuel + 1, q, hq => by
    unfold fill
    split
    · rename_i hroom; exact fill_rule hpost fuel q.post (hpost q hq hroom)
    · exact hq

/-- The number a push returns is the one its queue has reached. -/
theorem push_lastSn {q q' : ReceiveQueue} {bufs : List Buffer} {ret : Int} {sn : Nat}
    (h : q.push bufs = some (ret, sn, q')) : sn = shortSN q'.secondaryQueue.fragmentId := by
  obtain ⟨ids, sq, hsq, rfl, -, rfl⟩ := push_some h
  have hid : (fillPrimaryQueue { q with secondaryQueue := sq }).secondaryQueue.fragmentId = ids.2 := by
    refine fill_rule (P := fun q => q.secondaryQueue.fragmentId = ids.2) (fun q hq _ => ?_) _ _
      (SecondaryQueue.push_some hsq).2.1
    exact q.secondaryQueue.popFragment_fields.1.trans hq
  rw [hid]

/-- The invariant rule of the advance loop. -/
theorem advance_rule {P : ReceiveQueue → Prop}
    (hadv : ∀ q, P q → q.tail ≠ q.head → (q.requests (q.tail % q.queueCapacity)).inflight = false →
      P { q with tail := q.tail + 1 }) :
    ∀ (fuel : Nat) (q : ReceiveQueue), P q → P (advance fuel q)
  | 0, _, hq => hq
  | fuel + 1, q, hq => by
    unfold advance
    split
    · exact hq
    · rename_i hne
      split
      · exact hq
      · rename_i hf
        exact advance_rule hadv fuel _ (hadv q hq hne (by simpa using hf))

/-- More fuel changes nothing: the window closes before the fuel runs out. -/
theorem fill_fuel : ∀ (n k : Nat) (q : ReceiveQueue), q.wndSize < 2 ^ 16 → q.wndSize < sub64 q.head q.tail + n →
    fill n q = fill (n + k) q
  | 0, k, q, _, hn => by
    have hroom : q.hasRoom = false := by
      unfold hasRoom; simp; omega
    cases k with
    | zero => rfl
    | succ k => simp [fill, hroom]
  | n + 1, k, q, hw, hn => by
    rw [show n + 1 + k = (n + k) + 1 by omega]
    unfold fill
    split
    · rename_i hroom
      have hle : sub64 q.head q.tail ≤ q.wndSize := by
        unfold hasRoom at hroom; simp only [Bool.and_eq_true, decide_eq_true_eq] at hroom; exact hroom.2
      have hsucc : sub64 (q.head + 1) q.tail = sub64 q.head q.tail + 1 := by unfold sub64 at *; omega
      exact fill_fuel n k q.post hw (by simp only [post]; omega)
    · rfl

/-- More fuel changes nothing: `tail_` meets `head_` before the fuel runs out. -/
theorem advance_fuel : ∀ (n k : Nat) (q : ReceiveQueue), q.tail ≤ q.head → q.head ≤ q.tail + n →
    advance n q = advance (n + k) q
  | 0, k, q, h1, h2 => by
    cases k with
    | zero => rfl
    | succ k => simp [advance, show q.tail = q.head by omega]
  | n + 1, k, q, h1, h2 => by
    rw [show n + 1 + k = (n + k) + 1 by omega]
    unfold advance
    split
    · rfl
    · split
      · rfl
      · exact advance_fuel n k _ (by simp only; omega) (by simp only; omega)

/-- Everything `markCompleted` can do: ignore the packet, find the request done already, or take
the payload. -/
theorem markCompleted_cases {q q' : ReceiveQueue} {p : Packet} {mv : Option MemMove}
    (h : q.markCompleted p = some (q', mv)) :
    (q.inWindow p.sn = false ∧ q' = q ∧ mv = none) ∨
    (q.inWindow p.sn = true ∧ (q.requestOf p.sn).inflight = false ∧ q' = settle q ∧ mv = none) ∨
    (q.inWindow p.sn = true ∧ (q.requestOf p.sn).inflight = true ∧ p.payload.length = (q.requestOf p.sn).length ∧
      q' = settle (q.complete p) ∧ mv = some ⟨(q.requestOf p.sn).addr, p.payload⟩) := by
  unfold markCompleted at h
  split at h
  · rename_i hw; cases h; exact .inl ⟨by simpa using hw, rfl, rfl⟩
  · rename_i hw
    have hw : q.inWindow p.sn = true := by simpa using hw
    simp only at h
    split at h
    · rename_i hf
      split at h
      · cases h
      · rename_i hl; cases h; exact .inr (.inr ⟨hw, hf, not_not.1 hl, rfl, rfl⟩)
    · rename_i hf; cases h; exact .inr (.inl ⟨hw, by simpa using hf, rfl, rfl⟩)

/-- A packet that is taken. -/
theorem markCompleted_take {q : ReceiveQueue} {p : Packet} {r : RecvRequest} (hw : q.inWindow p.sn = true)
    (hr : q.requestOf p.sn = r) (hf : r.inflight = true) (hl : p.payload.length = r.length) :
    q.markCompleted p = some ((q.complete p).settle, some ⟨r.addr, p.payload⟩) := by
  subst hr
  unfold markCompleted
  simp [hw, hf, hl]

theorem fill_tail (fuel : Nat) (q : ReceiveQueue) : (fill fuel q).tail = q.tail :=
  fill_rule (P := fun q' => q'.tail = q.tail) (fun _ hq _ => hq) fuel q rfl

theorem push_tail {q q' : ReceiveQueue} {bufs : List Buffer} {ret : Int} {sn : Nat}
    (h : q.push bufs = some (ret, sn, q')) : q'.tail = q.tail := by
  obtain ⟨ids, sq, -, -, -, rfl⟩ := push_some h
  exact fill_tail _ _

theorem tail_le_settle (q : ReceiveQueue) : q.tail ≤ q.settle.tail := by
  unfold settle fillPrimaryQueue
  rw [fill_tail]
  exact advance_rule (P := fun q' => q.tail ≤ q'.tail) (fun _ hq _ _ => Nat.le_succ_of_le hq) _ q le_rfl

/-- A packet never moves `tail_` back. -/
theorem tail_le_markCompleted {q q' : ReceiveQueue} {p : Packet} {mv : Option MemMove}
    (h : q.markCompleted p = some (q', mv)) : q.tail ≤ q'.tail := by
  obtain ⟨-, rfl, -⟩ | ⟨-, -, rfl, -⟩ | ⟨-, -, -, rfl, -⟩ := markCompleted_cases h
  · exact le_rfl
  · exact q.tail_le_settle
  · exact (q.complete p).tail_le_settle

/-- `markCompleted` aborts exactly when it designates an outstanding request of another length. -/
theorem markCompleted_eq_none {q : ReceiveQueue} {p : Packet} :
    q.markCompleted p = none ↔
      q.inWindow p.sn = true ∧ (q.requestOf p.sn).inflight = true ∧ p.payload.length ≠ (q.requestOf p.sn).length := by
  unfold markCompleted
  cases hw : q.inWindow p.sn
  · simp
  · cases hf : (q.requestOf p.sn).inflight <;> by_cases hl : p.payload.length = (q.requestOf p.sn).length <;>
      simp [hf, hl]

end ReceiveQueue

end RapidTransfer
