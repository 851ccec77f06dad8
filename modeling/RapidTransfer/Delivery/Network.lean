/-
DATA packets between a send ring and its receivers. A transmitted packet is kept with the index it
was cut from (`DataMsg`); the network may lose, duplicate, delay and reorder, so every packet ever
transmitted stays deliverable. A `Receiver` is a receive queue with the memory it writes and the
list of its writes.

`ReceiverOK` is the joint invariant of one receiver and the sender's fragments: it holds at the
start and is kept by posting, by window changes, and by the delivery of any transmitted packet that
is not older than 24-bit numbers can tell (`ReceiverOK.deliver`). From it follow the contents of
the receiver's memory (`ReceiverOK.memory`).
-/
import RapidTransfer.Delivery.Sender
import RapidTransfer.Delivery.Receiver

namespace RapidTransfer

/-- A transmitted DATA packet and the index it carries. -/
structure DataMsg where
  index : Nat
  packet : Packet
  deriving DecidableEq

/-- An emitted ACK: the 64-bit `tail_` it stands for and the number it carries. -/
structure AckMsg where
  value : Nat
  sn : Nat
  deriving DecidableEq

/-- Sends the slot of an index: the time is stamped, the packet serialised and posted. -/
def SendRing.transmit (r : SendRing) (mem : Nat → UInt8) (index ts : Nat) : Option (SendRing × DataMsg) :=
  let r := r.setTs index ts
  match (r.getMutableEntry index).serialize with
  | none => none
  | some _ => some (r, ⟨index, (r.getMutableEntry index).onWire mem⟩)

/-- A receive queue, what was posted to it, and the memory it writes. -/
structure Receiver where
  queue : ReceiveQueue
  posted : List Buffer
  mem : Nat → UInt8
  writes : List (Nat × MemMove)

namespace Receiver

def post (r : Receiver) (bufs : List Buffer) : Option Receiver :=
  match r.queue.push bufs with
  | none => none
  | some (_, _, q) => some { r with queue := q, posted := r.posted ++ bufs }

def deliver (r : Receiver) (m : DataMsg) : Option Receiver :=
  match r.queue.markCompleted m.packet with
  | none => none
  | some (q, none) => some { r with queue := q }
  | some (q, some mv) => some { r with queue := q, mem := mv.apply r.mem, writes := r.writes ++ [(m.index, mv)] }

def setWndSize (r : Receiver) (w : Nat) : Receiver := { r with queue := r.queue.setWndSize w }

def ack (r : Receiver) : AckMsg := ⟨r.queue.tail, r.queue.getAckSN⟩

end Receiver

/-! ## Packets in flight -/

/-- A transmitted packet: below the sender's `head_`, with the number and the bytes of its
fragment. -/
def Sent (frags : List Buffer) (smem : Nat → UInt8) (head : Nat) (m : DataMsg) : Prop :=
  m.index < head ∧ m.packet.sn = shortSN m.index ∧
    ∃ b, frags[m.index]? = some b ∧ m.packet.payload = bytesAt smem b.addr (b.length % 2 ^ 32)

theorem Sent.mono {frags more : List Buffer} {smem : Nat → UInt8} {head head' : Nat} {m : DataMsg}
    (h : Sent frags smem head m) (hle : head ≤ head') : Sent (frags ++ more) smem head' m := by
  obtain ⟨h1, h2, b, hb, h3⟩ := h
  exact ⟨by omega, h2, b, by rw [List.getElem?_append_left (List.getElem?_eq_some_iff.1 hb).1]; exact hb, h3⟩

/-- A transmission sends the fragment of its index. -/
theorem SenderInv.transmit {f tail : Nat} {bufs : List Buffer} {r r' : SendRing} {smem : Nat → UInt8} {i ts : Nat}
    {m : DataMsg} (h : SenderInv f bufs tail r) (h1 : tail ≤ i) (h2 : i < r.head)
    (ht : r.transmit smem i ts = some (r', m)) :
    SenderInv f bufs tail r' ∧ r'.head = r.head ∧ Sent (fragments f bufs) smem r.head m := by
  unfold SendRing.transmit at ht
  simp only at ht
  split at ht
  · cases ht
  · cases ht
    have hinv := h.setTs h1 h2 ts
    refine ⟨hinv, rfl, h2, ?_⟩
    obtain ⟨hsn, b, hb, ha, hl⟩ := hinv.slots i h1 h2
    refine ⟨?_, b, hb, ?_⟩
    · show (SendRing.getMutableEntry _ i).sn % 2 ^ 24 = _
      unfold SendRing.getMutableEntry
      rw [hsn]; exact Nat.mod_mod _ _
    · show bytesAt smem (SendRing.getMutableEntry _ i).dataBuf (SendRing.getMutableEntry _ i).dataLen = _
      unfold SendRing.getMutableEntry
      rw [ha, hl]

/-! ## Writes -/

/-- Buffers of different indices do not overlap. -/
def NoOverlap (bufs : List Buffer) : Prop :=
  ∀ {i j : Nat} {a b : Buffer}, i ≠ j → bufs[i]? = some a → bufs[j]? = some b →
    a.addr + a.length ≤ b.addr ∨ b.addr + b.length ≤ a.addr

/-- After writes to ranges that do not overlap, each range holds its bytes. -/
theorem bytesAt_foldl_apply {ws : List (Nat × MemMove)} (mem : Nat → UInt8) (hnd : ws.Nodup)
    (hdis : ∀ w ∈ ws, ∀ w' ∈ ws, w ≠ w' →
      w.2.dst + w.2.bytes.length ≤ w'.2.dst ∨ w'.2.dst + w'.2.bytes.length ≤ w.2.dst)
    {w : Nat × MemMove} (hw : w ∈ ws) :
    bytesAt (ws.foldl (fun m w => w.2.apply m) mem) w.2.dst w.2.bytes.length = w.2.bytes := by
  -- from the right: the last write is read back, or is elsewhere
  induction ws using List.reverseRecOn with
  | nil => cases hw
  | append_singleton ws v ih =>
    rw [List.foldl_append]
    by_cases hv : w = v
    · subst hv
      exact MemMove.bytesAt_apply_self _ _
    · have hmem : w ∈ ws := by
        rcases List.mem_append.1 hw with h | h
        · exact h
        · exact absurd (List.mem_singleton.1 h) hv
      have hsep := hdis w hw v (by simp) hv
      rw [show List.foldl _ _ [v] = v.2.apply _ from rfl, MemMove.bytesAt_apply_of_disjoint _ _ hsep]
      exact ih (List.nodup_append.1 hnd).1
        (fun a ha b hb => hdis a (List.mem_append_left _ ha) b (List.mem_append_left _ hb)) hmem

/-! ## A receiver against the sender's fragments -/

/-- The write of index `i`: the sender's fragment, at the place of the receiver's. -/
def Delivers (src dst : List Buffer) (smem : Nat → UInt8) (i : Nat) (mv : MemMove) : Prop :=
  ∃ s d, src[i]? = some s ∧ dst[i]? = some d ∧ d.length = s.length ∧ mv = ⟨d.addr, bytesAt smem s.addr s.length⟩

theorem Delivers.append {src dst : List Buffer} {smem : Nat → UInt8} {i : Nat} {mv : MemMove}
    (h : Delivers src dst smem i mv) (src' dst' : List Buffer) : Delivers (src ++ src') (dst ++ dst') smem i mv := by
  obtain ⟨s, d, hs, hd, hr⟩ := h
  exact ⟨s, d, by rw [List.getElem?_append_left (List.getElem?_eq_some_iff.1 hs).1]; exact hs,
    by rw [List.getElem?_append_left (List.getElem?_eq_some_iff.1 hd).1]; exact hd, hr⟩

/-- A receiver that holds nothing but fragments of the sender below `bound`. -/
structure ReceiverOK (f : Nat) (sent : List Buffer) (smem mem0 : Nat → UInt8) (bound : Nat) (r : Receiver) : Prop where
  inv : ReceiverInv f r.posted (fun i => i ∈ r.writes.map Prod.fst) r.queue
  below : ∀ w ∈ r.writes, w.1 < bound
  content : ∀ w ∈ r.writes, Delivers (fragments f sent) (fragments f r.posted) smem w.1 w.2
  once : (r.writes.map Prod.fst).Nodup
  mem : r.mem = r.writes.foldl (fun m w => w.2.apply m) mem0

namespace ReceiverOK

variable {f bound : Nat} {sent : List Buffer} {smem mem0 : Nat → UInt8} {r : Receiver}

/-- `tail_` is bounded like every received index. -/
theorem tail_le (h : ReceiverOK f sent smem mem0 bound r) : r.queue.tail ≤ bound := by
  by_contra hlt
  push Not at hlt
  obtain ⟨w, hw, he⟩ := List.mem_map.1 (h.inv.low bound hlt)
  have := h.below w hw
  omega

/-- The sender may go on: more fragments, a higher `head_`. -/
theorem mono (h : ReceiverOK f sent smem mem0 bound r) {more : List Buffer} {bound' : Nat} (hle : bound ≤ bound') :
    ReceiverOK f (sent ++ more) smem mem0 bound' r := by
  refine ⟨h.inv, fun w hw => lt_of_lt_of_le (h.below w hw) hle, fun w hw => ?_, h.once, h.mem⟩
  rw [fragments_append]
  have := (h.content w hw).append (fragments f more) []
  rwa [List.append_nil] at this

theorem post (h : ReceiverOK f sent smem mem0 bound r) {bufs : List Buffer} {r' : Receiver}
    (hp : r.post bufs = some r') :
    ReceiverOK f sent smem mem0 bound r' ∧ r'.queue.tail = r.queue.tail ∧ r'.posted = r.posted ++ bufs := by
  unfold Receiver.post at hp
  split at hp
  · cases hp
  · rename_i ret sn q hq
    cases hp
    obtain ⟨hinv, ht⟩ := h.inv.push hq
    refine ⟨⟨hinv, h.below, fun w hw => ?_, h.once, h.mem⟩, ht, rfl⟩
    rw [fragments_append]
    have := (h.content w hw).append [] (fragments f bufs)
    rwa [List.append_nil] at this

theorem setWndSize (h : ReceiverOK f sent smem mem0 bound r) {w : Nat}
    (hw : (r.queue.setWndSize w).wndSize < r.queue.queueCapacity) :
    ReceiverOK f sent smem mem0 bound (r.setWndSize w) :=
  ⟨h.inv.setWndSize hw, h.below, h.content, h.once, h.mem⟩

/-- A packet recent enough and designating an index of the window designates its own index. -/
theorem index_eq (hb : bound ≤ r.queue.tail + 2 ^ 16) {m : DataMsg}
    (hs : Sent (fragments f sent) smem bound m)
    (hage : r.queue.tail + r.queue.wndSize ≤ m.index + 2 ^ 24) {i : Nat} (h1 : r.queue.tail ≤ i)
    (h2 : i < r.queue.tail + r.queue.wndSize) (h3 : shortSN i = m.packet.sn) : i = m.index := by
  obtain ⟨hlt, hsn, -⟩ := hs
  rw [hsn] at h3
  exact Serial.eq_of_mod_eq h3 (by omega) (by omega)

/-- The delivery of a transmitted packet. -/
theorem deliver (h : ReceiverOK f sent smem mem0 bound r) (hb : bound ≤ r.queue.tail + 2 ^ 16)
    {lens : List Nat} (hsl : sent.map (·.length) <+: lens) (hrl : r.posted.map (·.length) <+: lens)
    {m : DataMsg} (hs : Sent (fragments f sent) smem bound m)
    (hage : r.queue.tail + r.queue.wndSize ≤ m.index + 2 ^ 24) {r' : Receiver} (hd : r.deliver m = some r') :
    ReceiverOK f sent smem mem0 bound r' ∧ r.queue.tail ≤ r'.queue.tail ∧ r'.posted = r.posted := by
  have hsn24 : m.packet.sn < 2 ^ 24 := by rw [hs.2.1]; exact shortSN_lt _
  unfold Receiver.deliver at hd
  split at hd
  · cases hd
  · rename_i q hm
    cases hd
    obtain ⟨ht, ⟨-, hinv⟩ | ⟨i, b, -, -, -, -, -, -, hmv, -⟩⟩ := h.inv.markCompleted_inv hsn24 hm
    · exact ⟨⟨hinv, h.below, h.content, h.once, h.mem⟩, ht, rfl⟩
    · cases hmv
  · rename_i q mv hm
    cases hd
    obtain ⟨ht, ⟨hmv, -⟩ | ⟨i, d, h1, -, h3, h4, hnew, hdst, hmv, hlen, hinv⟩⟩ := h.inv.markCompleted_inv hsn24 hm
    · cases hmv
    · have hi := index_eq hb hs hage h1 h3 h4
      subst hi
      cases hmv
      obtain ⟨hlt, -, s, hsrc, hpay⟩ := hs
      have heq : d.length = s.length := length_eq_of_prefix hrl hsl hdst hsrc
      have hfull : s.length % 2 ^ 32 = s.length := by
        rw [hpay, length_bytesAt] at hlen; omega
      rw [hfull] at hpay
      refine ⟨⟨?_, fun w hw => ?_, fun w hw => ?_, ?_, ?_⟩, ht, rfl⟩
      · simpa using hinv
      · rcases List.mem_append.1 hw with hw | hw
        · exact h.below w hw
        · rw [List.mem_singleton] at hw; subst hw; exact hlt
      · rcases List.mem_append.1 hw with hw | hw
        · exact h.content w hw
        · rw [List.mem_singleton] at hw; subst hw
          exact ⟨s, d, hsrc, hdst, heq, by simp only [hpay]⟩
      · rw [List.map_append]
        refine List.nodup_append.2 ⟨h.once, by simp, fun a ha b hb' => ?_⟩
        simp only [List.map_cons, List.map_nil, List.mem_singleton] at hb'
        subst hb'; rintro rfl; exact hnew ha
      · rw [List.foldl_append, ← h.mem]; rfl

/-- A transmitted packet never makes the receiver abort, as long as fragment lengths fit the 32
bits of `data_len`. -/
theorem deliver_ne_none (h : ReceiverOK f sent smem mem0 bound r) (hb : bound ≤ r.queue.tail + 2 ^ 16)
    {lens : List Nat} (hsl : sent.map (·.length) <+: lens) (hrl : r.posted.map (·.length) <+: lens)
    {m : DataMsg} (hs : Sent (fragments f sent) smem bound m)
    (hage : r.queue.tail + r.queue.wndSize ≤ m.index + 2 ^ 24)
    (h32 : ∀ s ∈ fragments f sent, s.length < 2 ^ 32) : r.deliver m ≠ none := by
  intro hn
  have hm : r.queue.markCompleted m.packet = none := by
    unfold Receiver.deliver at hn
    split at hn
    · assumption
    · cases hn
    · cases hn
  obtain ⟨i, d, h1, -, h3, h4, hdst, hlen⟩ := h.inv.markCompleted_abort (by rw [hs.2.1]; exact shortSN_lt _) hm
  have hi := index_eq hb hs hage h1 h3 h4
  subst hi
  obtain ⟨-, -, s, hsrc, hpay⟩ := hs
  have heq : d.length = s.length := length_eq_of_prefix hrl hsl hdst hsrc
  have := h32 s (List.mem_of_getElem? hsrc)
  rw [hpay, length_bytesAt, Nat.mod_eq_of_lt this] at hlen
  exact hlen heq.symm

/-! ## The received prefix -/

/-- Every index below `tail_` was written exactly once, with the sender's fragment. -/
theorem delivered (h : ReceiverOK f sent smem mem0 bound r) {i : Nat} (hi : i < r.queue.tail) :
    ∃ mv, r.writes.filter (fun w => w.1 = i) = [(i, mv)] ∧
      Delivers (fragments f sent) (fragments f r.posted) smem i mv := by
  obtain ⟨⟨j, mv⟩, hw, hj⟩ := List.mem_map.1 (h.inv.low i hi)
  obtain rfl : j = i := hj
  refine ⟨mv, ?_, h.content _ hw⟩
  have hcount : (r.writes.filter fun w => w.1 = j).length = 1 := by
    have := List.count_eq_one_of_mem h.once (List.mem_map_of_mem (f := Prod.fst) hw)
    rw [List.count, List.countP_map, List.countP_eq_length_filter] at this
    simpa [Function.comp_def, beq_eq_decide] using this
  obtain ⟨w, hl⟩ := List.length_eq_one_iff.1 hcount
  have hmem : (j, mv) ∈ r.writes.filter (fun w => w.1 = j) := List.mem_filter.2 ⟨hw, by simp⟩
  rw [hl, List.mem_singleton] at hmem
  rw [hl, hmem]

/-- The receiver's memory holds the received fragments when its own do not overlap. -/
theorem memory (h : ReceiverOK f sent smem mem0 bound r) (hdis : NoOverlap (fragments f r.posted)) {i : Nat}
    (hi : i < r.queue.tail) {d s : Buffer} (hd : (fragments f r.posted)[i]? = some d)
    (hs : (fragments f sent)[i]? = some s) : bytesAt r.mem d.addr d.length = bytesAt smem s.addr s.length := by
  obtain ⟨mv, hf, s', d', hs', hd', hlen, rfl⟩ := h.delivered hi
  rw [hs] at hs'; rw [hd] at hd'
  cases hs'; cases hd'
  have hmem : (i, (⟨d.addr, bytesAt smem s.addr s.length⟩ : MemMove)) ∈ r.writes := by
    have : (i, (⟨d.addr, bytesAt smem s.addr s.length⟩ : MemMove)) ∈ r.writes.filter (fun w => w.1 = i) := by
      rw [hf]; simp
    exact (List.mem_filter.1 this).1
  have hread := bytesAt_foldl_apply mem0 (List.Nodup.of_map _ h.once) ?_ hmem
  · simp only [length_bytesAt] at hread
    rw [h.mem, hlen, hread]
  intro w hw w' hw' hne
  obtain ⟨sw, dw, -, hdw, hlw, hmw⟩ := h.content w hw
  obtain ⟨sw', dw', -, hdw', hlw', hmw'⟩ := h.content w' hw'
  have hij : w.1 ≠ w'.1 := fun e => hne (List.inj_on_of_nodup_map h.once hw hw' e)
  rw [hmw, hmw', length_bytesAt, length_bytesAt, ← hlw, ← hlw']
  exact hdis hij hdw hdw'

end ReceiverOK

end RapidTransfer
