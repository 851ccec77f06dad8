/-
The reader-writer spin lock (`concurrency.h`) under any number of threads. A thread is at a place in the
code of one operation, and an action is one access to the ticket word: the loads, the fetch-adds, the
compare-and-swaps, and the store that ends `unlock`. The three fields of the word are 16 bits wide and
wrap.

The fields stand for counters that only grow: `write` counts the tickets that were given back, `read` those
that were ever let in, `users` those that were drawn. The invariant compares the fields with these counters
and the counters with the threads. One thing spoils them: `tryLockShared` compares with a word in which
`users` is replaced by `read`, but stores the `users` it loaded. When all fields have gone round in between,
the swap succeeds and draws tickets for nobody. With at most 2^15 threads inside or in line these phantom
tickets only keep the lock shut (`exclusive_of_calm`); with one thread more they let a writer in beside a
reader (`reader_beside_writer`).
-/
import RapidTransfer.Lib.Runs
import RapidTransfer.Lib.Tally

namespace RapidTransfer.RWSpinlock

/-! ## The lock -/

/-- `RWTicket` -/
structure Ticket where
  write : BitVec 16
  read : BitVec 16
  users : BitVec 16
  deriving DecidableEq, Repr

/-- Where a thread is: outside the lock, between the two accesses of an operation with what it loaded, in
line with its ticket, or inside. -/
inductive Place
  | idle
  | tryLock (old : Ticket)
  | queued (val : BitVec 16)
  | writing
  | unlock (t : Ticket)
  | tryLockShared (t : Ticket)
  | reading
  deriving DecidableEq, Repr

namespace Place

/-- The thread holds the lock for writing; in `unlock` it does until the store. -/
def isWriter : Place → Bool
  | .writing => true
  | .unlock _ => true
  | _ => false

def isReader : Place → Bool
  | .reading => true
  | _ => false

def isQueued : Place → Bool
  | .queued _ => true
  | _ => false

end Place

/-- The accesses to the ticket word. `lock` and `lockShared` repeat `tryLock` and `tryLockShared`. -/
inductive Op
  | tryLockLoad
  | tryLockSwap
  | writeLockAdd
  | writeLockLoad
  | unlockLoad
  | unlockStore
  | unlockAndLockShared
  | tryLockSharedLoad
  | tryLockSharedSwap
  | unlockShared
  deriving DecidableEq, Repr

structure State (ι : Type) where
  ticket : Ticket
  place : ι → Place

variable {ι : Type}

def init (ι : Type) : State ι := ⟨⟨0, 0, 0⟩, fun _ => .idle⟩

section Step

variable [DecidableEq ι]

/-- The thread goes to another place, with the word as it leaves it. -/
def State.move (s : State ι) (i : ι) (t : Ticket) (p : Place) : State ι := ⟨t, Function.update s.place i p⟩

theorem State.place_move (s : State ι) (i j : ι) (t : Ticket) (p : Place) :
    (s.move i t p).place j = if j = i then p else s.place j :=
  Function.update_apply s.place i p j

/-- One access of a thread, `none` when it is not at that point. -/
def step (s : State ι) (a : ι × Op) : Option (State ι) :=
  let i := a.1
  let t := s.ticket
  match a.2 with
  | .tryLockLoad =>
    match s.place i with
    | .idle => some (if t.users ≠ t.write then s else s.move i t (.tryLock t))
    | _ => none
  | .tryLockSwap =>
    match s.place i with
    | .tryLock old =>
      some (if t = old then s.move i { old with users := old.users + 1 } .writing else s.move i t .idle)
    | _ => none
  | .writeLockAdd =>
    match s.place i with
    | .idle => some (s.move i { t with users := t.users + 1 } (.queued t.users))
    | _ => none
  | .writeLockLoad =>
    match s.place i with
    | .queued val => some (if val ≠ t.write then s else s.move i t .writing)
    | _ => none
  | .unlockLoad =>
    match s.place i with
    | .writing => some (s.move i t (.unlock t))
    | _ => none
  | .unlockStore =>
    match s.place i with
    | .unlock l => some (s.move i { t with write := l.write + 1, read := l.read + 1 } .idle)
    | _ => none
  | .unlockAndLockShared =>
    match s.place i with
    | .writing => some (s.move i { t with read := t.read + 1 } .reading)
    | _ => none
  | .tryLockSharedLoad =>
    match s.place i with
    | .idle => some (s.move i t (.tryLockShared t))
    | _ => none
  | .tryLockSharedSwap =>
    match s.place i with
    | .tryLockShared l =>
      -- the word is compared with `users` replaced by `read`, and `users` is stored as it was loaded
      some (if t = { l with users := l.read } then s.move i ⟨l.write, l.read + 1, l.users + 1⟩ .reading
        else s.move i t .idle)
    | _ => none
  | .unlockShared =>
    match s.place i with
    | .reading => some (s.move i { t with write := t.write + 1 } .idle)
    | _ => none

/-- Everything an access can do. -/
inductive Effect (s : State ι) (i : ι) : State ι → Prop
  | busy : Effect s i s
  | tried (h : s.place i = .idle) (hfree : s.ticket.users = s.ticket.write) :
      Effect s i (s.move i s.ticket (.tryLock s.ticket))
  | taken {old : Ticket} (h : s.place i = .tryLock old) (hsame : s.ticket = old) :
      Effect s i (s.move i { old with users := old.users + 1 } .writing)
  | missed {old : Ticket} (h : s.place i = .tryLock old) : Effect s i (s.move i s.ticket .idle)
  | lined (h : s.place i = .idle) :
      Effect s i (s.move i { s.ticket with users := s.ticket.users + 1 } (.queued s.ticket.users))
  | served {val : BitVec 16} (h : s.place i = .queued val) (hval : val = s.ticket.write) :
      Effect s i (s.move i s.ticket .writing)
  | leaving (h : s.place i = .writing) : Effect s i (s.move i s.ticket (.unlock s.ticket))
  | left {l : Ticket} (h : s.place i = .unlock l) :
      Effect s i (s.move i { s.ticket with write := l.write + 1, read := l.read + 1 } .idle)
  | downgraded (h : s.place i = .writing) :
      Effect s i (s.move i { s.ticket with read := s.ticket.read + 1 } .reading)
  | triedShared (h : s.place i = .idle) : Effect s i (s.move i s.ticket (.tryLockShared s.ticket))
  | takenShared {l : Ticket} (h : s.place i = .tryLockShared l) (hsame : s.ticket = { l with users := l.read }) :
      Effect s i (s.move i ⟨l.write, l.read + 1, l.users + 1⟩ .reading)
  | missedShared {l : Ticket} (h : s.place i = .tryLockShared l) : Effect s i (s.move i s.ticket .idle)
  | leftShared (h : s.place i = .reading) :
      Effect s i (s.move i { s.ticket with write := s.ticket.write + 1 } .idle)

theorem effect {s s' : State ι} {i : ι} {op : Op} (hs : step s (i, op) = some s') : Effect s i s' := by
  cases op with
  | tryLockLoad =>
    simp only [step] at hs
    split at hs
    · rename_i h
      cases hs
      split
      · exact .busy
      · rename_i hfree; exact .tried h (not_not.1 hfree)
    · cases hs
  | tryLockSwap =>
    simp only [step] at hs
    split at hs
    · rename_i h
      cases hs
      split
      · rename_i hsame; exact .taken h hsame
      · exact .missed h
    · cases hs
  | writeLockAdd =>
    simp only [step] at hs
    split at hs
    · rename_i h; cases hs; exact .lined h
    · cases hs
  | writeLockLoad =>
    simp only [step] at hs
    split at hs
    · rename_i h
      cases hs
      split
      · exact .busy
      · rename_i hval; exact .served h (not_not.1 hval)
    · cases hs
  | unlockLoad =>
    simp only [step] at hs
    split at hs
    · rename_i h; cases hs; exact .leaving h
    · cases hs
  | unlockStore =>
    simp only [step] at hs
    split at hs
    · rename_i h; cases hs; exact .left h
    · cases hs
  | unlockAndLockShared =>
    simp only [step] at hs
    split at hs
    · rename_i h; cases hs; exact .downgraded h
    · cases hs
  | tryLockSharedLoad =>
    simp only [step] at hs
    split at hs
    · rename_i h; cases hs; exact .triedShared h
    · cases hs
  | tryLockSharedSwap =>
    simp only [step] at hs
    split at hs
    · rename_i h
      cases hs
      split
      · rename_i hsame; exact .takenShared h hsame
      · exact .missedShared h
    · cases hs
  | unlockShared =>
    simp only [step] at hs
    split at hs
    · rename_i h; cases hs; exact .leftShared h
    · cases hs

end Step

/-! ## Counting threads -/

section Count

variable [Fintype ι]

def State.writers (s : State ι) : Nat := Tally.count Place.isWriter s.place
def State.readers (s : State ι) : Nat := Tally.count Place.isReader s.place
def State.queue (s : State ι) : Nat := Tally.count Place.isQueued s.place

/-- The threads that hold the lock or are in line. -/
def State.crowd (s : State ι) : Nat :=
  Tally.count (fun p => p.isWriter || (p.isReader || p.isQueued)) s.place

theorem State.crowd_eq (s : State ι) : s.crowd = s.writers + (s.readers + s.queue) := by
  have hw : ∀ p : Place, p.isWriter = true → (p.isReader || p.isQueued) = false := by
    intro p hp
    cases p with
    | writing => rfl
    | unlock => rfl
    | _ => cases hp
  have hr : ∀ p : Place, p.isReader = true → p.isQueued = false := by
    intro p hp
    cases p with
    | reading => rfl
    | _ => cases hp
  unfold crowd writers readers queue
  rw [Tally.count_or hw, Tally.count_or hr]

variable [DecidableEq ι]

/-- What a move does to the three counts. -/
theorem State.counts_move {s : State ι} {i : ι} {q : Place} (hi : s.place i = q) (t : Ticket) (p : Place) :
    (s.move i t p).writers + q.isWriter.toNat = s.writers + p.isWriter.toNat ∧
    (s.move i t p).readers + q.isReader.toNat = s.readers + p.isReader.toNat ∧
    (s.move i t p).queue + q.isQueued.toNat = s.queue + p.isQueued.toNat := by
  subst hi
  exact ⟨Tally.count_update _ _ _ _, Tally.count_update _ _ _ _, Tally.count_update _ _ _ _⟩

end Count

/-! ## The invariant -/

/-- The counters behind the fields, the tickets drawn for nobody, and the ticket of each thread in line. -/
structure Ghost (ι : Type) where
  write : Nat
  read : Nat
  users : Nat
  phantom : Nat
  val : ι → Nat

/-- The limit for the threads inside or in line, and for the phantom tickets. -/
def limit : Nat := 2 ^ 15

/-- What is known about a thread by its place: `base` is the first ticket that is not held. -/
def Fits (base users phantom : Nat) (t : Ticket) (ticket : Nat) : Place → Prop
  | .tryLock old => old.users = old.write
  | .queued val => val = BitVec.ofNat 16 ticket ∧ base ≤ ticket ∧ ticket < users
  -- nobody else changes `write` and `read` between the load and the store of a writer
  | .unlock l => l.write = t.write ∧ l.read = t.read
  -- what the word may be ahead by when the swap succeeds; with phantoms about it does not
  | .tryLockShared l => phantom = 0 → (l.users - l.read).toNat ≤ limit
  | _ => True

section Inv

variable [Fintype ι]

/-- The first ticket that is not held. -/
def Ghost.base (g : Ghost ι) (s : State ι) : Nat := g.write + s.readers + g.phantom + s.writers

/-- The fields are the counters modulo 2^16. `read` is ahead of `write` by the readers, `users` by all tickets that are
held, phantom or in line. There is one writer at most, and then no reader and no phantom. The tickets in line are not
held yet and all different. -/
structure Inv (g : Ghost ι) (s : State ι) : Prop where
  ticket : s.ticket = ⟨BitVec.ofNat 16 g.write, BitVec.ofNat 16 g.read, BitVec.ofNat 16 g.users⟩
  read_eq : g.read = g.write + s.readers
  users_eq : g.users = g.base s + s.queue
  one : s.writers ≤ 1
  alone : 0 < s.writers → s.readers = 0 ∧ g.phantom = 0
  few : g.phantom ≤ limit
  fits : ∀ i, Fits (g.base s) g.users g.phantom s.ticket (g.val i) (s.place i)
  distinct : ∀ i j, (s.place i).isQueued = true → (s.place j).isQueued = true → g.val i = g.val j → i = j

theorem inv_init : Inv ⟨0, 0, 0, 0, fun _ => 0⟩ (init ι) := by
  have hw : (init ι).writers = 0 := Tally.count_const_false fun _ => rfl
  have hr : (init ι).readers = 0 := Tally.count_const_false fun _ => rfl
  have hq : (init ι).queue = 0 := Tally.count_const_false fun _ => rfl
  constructor
  · rfl
  · rw [hr]
  · simp only [Ghost.base, hw, hr, hq]
  · rw [hw]; exact Nat.zero_le 1
  · rw [hw]; exact fun h => absurd h (lt_irrefl 0)
  · exact Nat.zero_le _
  · intro i; exact trivial
  · intro i j hi; cases hi

theorem ofNat_succ (n : Nat) : BitVec.ofNat 16 (n + 1) = BitVec.ofNat 16 n + 1 := BitVec.ofNat_add n 1

/-- What is known about a thread survives a step of another: its ticket is still not held, and while it is in
`unlock` the word it loaded is still there. -/
theorem Fits.keep {base base' users users' phantom phantom' k : Nat} {t t' : Ticket} {p : Place}
    (h : Fits base users phantom t k p) (hbase : p.isQueued = true → base ≤ k → base' ≤ k) (husers : users ≤ users')
    (hword : p.isWriter = true → t'.write = t.write ∧ t'.read = t.read) (hphantom : phantom' = 0 → phantom = 0) :
    Fits base' users' phantom' t' k p := by
  cases p with
  | tryLock old => exact h
  | queued val => exact ⟨h.1, hbase rfl h.2.1, lt_of_lt_of_le h.2.2 husers⟩
  | unlock l =>
    obtain ⟨hw, hr⟩ := hword rfl
    exact ⟨h.1.trans hw.symm, h.2.trans hr.symm⟩
  | tryLockShared l => exact fun h0 => h (hphantom h0)
  | _ => trivial

variable {g g' : Ghost ι} {s s' : State ι} {i : ι} {t : Ticket} {p : Place}

/-- While a thread writes there is no other writer. -/
theorem Inv.only_writer (h : Inv g s) (hi : (s.place i).isWriter = true) {j : ι} (hji : j ≠ i) :
    (s.place j).isWriter ≠ true := by
  intro hj
  have := Tally.two_le_count hji hj hi
  exact absurd h.one (by unfold State.writers; omega)

/-- `tryLock`: when the word says so, nobody holds the lock and nobody is in line. -/
theorem Inv.free (h : Inv g s) (hcrowd : s.crowd < limit) (hfree : s.ticket.users = s.ticket.write) :
    s.writers = 0 ∧ s.readers = 0 ∧ s.queue = 0 ∧ g.phantom = 0 := by
  have hu := h.users_eq
  have hf := h.few
  have hl : limit = 32768 := rfl
  rw [h.ticket] at hfree
  have hmod : g.users % 2 ^ 16 = g.write % 2 ^ 16 := by
    simpa only [BitVec.toNat_ofNat] using congrArg BitVec.toNat hfree
  -- fewer than 2^16 tickets are out, so the counters are equal where the fields are
  rw [State.crowd_eq] at hcrowd
  unfold Ghost.base at hu
  omega

/-- `tryLockShared`: when the word it compares with is there, nobody writes and nobody is in line. -/
theorem Inv.shareable (h : Inv g s) (hcrowd : s.crowd < limit) (hfree : s.ticket.users = s.ticket.read) :
    s.writers = 0 ∧ s.queue = 0 ∧ g.phantom = 0 := by
  have hu := h.users_eq
  have hr := h.read_eq
  have hf := h.few
  have hl : limit = 32768 := rfl
  rw [h.ticket] at hfree
  have hmod : g.users % 2 ^ 16 = g.read % 2 ^ 16 := by simpa only [BitVec.toNat_ofNat] using congrArg BitVec.toNat hfree
  rw [State.crowd_eq] at hcrowd
  unfold Ghost.base at hu
  omega

/-- `tryLockShared` loads a word that is ahead of its readers by the writer and the line only. -/
theorem Inv.loaded (h : Inv g s) (hcrowd : s.crowd ≤ limit) (hd0 : g.phantom = 0) :
    (s.ticket.users - s.ticket.read).toNat ≤ limit := by
  have hu := h.users_eq
  have hr := h.read_eq
  have hl : limit = 32768 := rfl
  rw [State.crowd_eq] at hcrowd
  unfold Ghost.base at hu
  rw [h.ticket]
  simp only [BitVec.toNat_sub, BitVec.toNat_ofNat]
  omega

variable [DecidableEq ι]

/-- The step rule: what has to be shown of a move, about the counters, the thread and the others. -/
theorem Inv.move (h : Inv g s)
    (hticket : t = ⟨BitVec.ofNat 16 g'.write, BitVec.ofNat 16 g'.read, BitVec.ofNat 16 g'.users⟩)
    (hread : g'.read = g'.write + (s.move i t p).readers)
    (husers : g'.users = g'.base (s.move i t p) + (s.move i t p).queue) (hone : (s.move i t p).writers ≤ 1)
    (halone : 0 < (s.move i t p).writers → (s.move i t p).readers = 0 ∧ g'.phantom = 0) (hfew : g'.phantom ≤ limit)
    (hself : Fits (g'.base (s.move i t p)) g'.users g'.phantom t (g'.val i) p)
    (hval : ∀ j, j ≠ i → g'.val j = g.val j)
    (hbase : ∀ j, j ≠ i → (s.place j).isQueued = true → g.base s ≤ g.val j → g'.base (s.move i t p) ≤ g.val j)
    (hle : g.users ≤ g'.users)
    (hword : ∀ j, j ≠ i → (s.place j).isWriter = true → t.write = s.ticket.write ∧ t.read = s.ticket.read)
    (hphantom : g'.phantom = 0 → g.phantom = 0)
    (hnew : p.isQueued = true → ∀ j, j ≠ i → (s.place j).isQueued = true → g'.val i ≠ g.val j) :
    Inv g' (s.move i t p) := by
  refine ⟨hticket, hread, husers, hone, halone, hfew, fun j => ?_, fun j k hj hk hjk => ?_⟩
  · rw [State.place_move]
    split
    · rename_i hji
      rw [hji]
      exact hself
    · rename_i hji
      rw [hval j hji]
      exact (h.fits j).keep (hbase j hji) hle (hword j hji) hphantom
  · rw [State.place_move] at hj hk
    split at hj <;> split at hk
    · rename_i hji hki
      rw [hji, hki]
    · rename_i hji hki
      rw [hji, hval k hki] at hjk
      exact absurd hjk (hnew hj k hki hk)
    · rename_i hji hki
      rw [hki, hval j hji] at hjk
      exact absurd hjk.symm (hnew hk j hji hj)
    · rename_i hji hki
      rw [hval j hji, hval k hki] at hjk
      exact h.distinct j k hj hk hjk

/-- A move that leaves the word alone and does not change what the thread counts as. -/
theorem Inv.relocate (h : Inv g s) {q : Place} (hi : s.place i = q) (hw : p.isWriter = q.isWriter)
    (hr : p.isReader = q.isReader) (hq : q.isQueued = false) (hp : p.isQueued = false)
    (hself : Fits (g.base s) g.users g.phantom s.ticket (g.val i) p) : Inv g (s.move i s.ticket p) := by
  obtain ⟨cw, cr, cq⟩ := State.counts_move hi s.ticket p
  rw [hw] at cw
  rw [hr] at cr
  rw [hq, hp] at cq
  have cw := Nat.add_right_cancel cw
  have cr := Nat.add_right_cancel cr
  have cq := Nat.add_right_cancel cq
  have hbase : g.base (s.move i s.ticket p) = g.base s := by rw [Ghost.base, Ghost.base, cw, cr]
  refine h.move h.ticket (cr ▸ h.read_eq) ?_ (cw ▸ h.one) ?_ h.few (hbase ▸ hself) (fun _ _ => rfl) ?_ le_rfl
    (fun _ _ _ => ⟨rfl, rfl⟩) id ?_
  · rw [hbase, cq]; exact h.users_eq
  · rw [cw, cr]; exact h.alone
  · intro j _ _ hj; rw [hbase]; exact hj
  · intro hp'; rw [hp] at hp'; cases hp'

/-- The swap of `tryLock`: it succeeds only on a lock that nobody holds and that has no line. -/
theorem Inv.taken (h : Inv g s) {old : Ticket} (hi : s.place i = .tryLock old) (hsame : s.ticket = old)
    (hcrowd : (s.move i { old with users := old.users + 1 } .writing).crowd ≤ limit) :
    Inv { g with users := g.users + 1 } (s.move i { old with users := old.users + 1 } .writing) := by
  subst hsame
  obtain ⟨cw, cr, cq⟩ := State.counts_move hi { s.ticket with users := s.ticket.users + 1 } .writing
  simp only [Place.isWriter, Place.isReader, Place.isQueued, Bool.toNat_true, Bool.toNat_false] at cw cr cq
  have hfits := h.fits i
  rw [hi] at hfits
  rw [State.crowd_eq] at hcrowd
  -- the word is as it was loaded, so the lock is free now
  obtain ⟨hw0, hr0, hq0, hd0⟩ := h.free (by rw [State.crowd_eq]; omega) hfits
  have hu := h.users_eq
  have hr := h.read_eq
  unfold Ghost.base at hu
  refine h.move ?_ ?_ ?_ ?_ ?_ h.few trivial (fun _ _ => rfl) ?_ (Nat.le_succ _) ?_ id ?_
  · rw [h.ticket]; simp only [ofNat_succ]
  · dsimp only; omega
  · dsimp only [Ghost.base]; omega
  · omega
  · exact fun _ => ⟨by omega, hd0⟩
  · intro j _ hj
    rw [Tally.eq_false_of_count hq0 j] at hj
    cases hj
  · intro j _ hj
    rw [Tally.eq_false_of_count hw0 j] at hj
    cases hj
  · intro hp; cases hp

/-- `writeLockAggressive` draws the next ticket. -/
theorem Inv.lined (h : Inv g s) (hi : s.place i = .idle) :
    Inv { g with users := g.users + 1, val := Function.update g.val i g.users }
      (s.move i { s.ticket with users := s.ticket.users + 1 } (.queued s.ticket.users)) := by
  obtain ⟨cw, cr, cq⟩ :=
    State.counts_move hi { s.ticket with users := s.ticket.users + 1 } (.queued s.ticket.users)
  simp only [Place.isWriter, Place.isReader, Place.isQueued, Bool.toNat_true, Bool.toNat_false] at cw cr cq
  have hu := h.users_eq
  have hr := h.read_eq
  have hone := h.one
  have halone := h.alone
  unfold Ghost.base at hu
  refine h.move ?_ ?_ ?_ ?_ ?_ h.few ⟨?_, ?_, ?_⟩ ?_ ?_ (Nat.le_succ _) (fun _ _ _ => ⟨rfl, rfl⟩) id ?_
  · rw [h.ticket]; simp only [ofNat_succ]
  · dsimp only; omega
  · dsimp only [Ghost.base]; omega
  · dsimp only; omega
  · dsimp only; omega
  · rw [h.ticket]; simp only [Function.update_self]
  · dsimp only [Ghost.base]; rw [Function.update_self]; omega
  · dsimp only; rw [Function.update_self]; exact Nat.lt_succ_self _
  · exact fun j hj => Function.update_of_ne hj _ _
  · intro j _ _ hj
    dsimp only [Ghost.base] at hj ⊢
    omega
  · -- the tickets in line were all drawn before
    intro _ j _ hj
    have hfits := h.fits j
    dsimp only
    rw [Function.update_self]
    cases hp : s.place j with
    | queued v =>
      rw [hp] at hfits
      exact (ne_of_lt hfits.2.2).symm
    | _ => rw [hp] at hj; cases hj

/-- The load that ends the wait: the ticket is the first that was not given back, so everybody before is gone. -/
theorem Inv.served (h : Inv g s) {val : BitVec 16} (hi : s.place i = .queued val) (hval : val = s.ticket.write)
    (hcrowd : s.crowd ≤ limit) : Inv g (s.move i s.ticket .writing) := by
  obtain ⟨cw, cr, cq⟩ := State.counts_move hi s.ticket .writing
  simp only [Place.isWriter, Place.isReader, Place.isQueued, Bool.toNat_true, Bool.toNat_false] at cw cr cq
  have hu := h.users_eq
  have hr := h.read_eq
  have hfew := h.few
  have hl : limit = 32768 := rfl
  have hfits := h.fits i
  rw [hi] at hfits
  obtain ⟨hticket, hlow, hhigh⟩ := hfits
  have hmod : g.val i % 2 ^ 16 = g.write % 2 ^ 16 := by
    rw [hval, h.ticket] at hticket
    simpa only [BitVec.toNat_ofNat] using (congrArg BitVec.toNat hticket).symm
  rw [State.crowd_eq] at hcrowd
  unfold Ghost.base at hu hlow
  -- the tickets out span at most 2^16 numbers, so the one with the value of `write` is the first
  have hfirst : g.val i = g.write := by omega
  have hqueued : (s.place i).isQueued = true := by rw [hi]; rfl
  refine h.move h.ticket ?_ ?_ ?_ ?_ h.few trivial (fun _ _ => rfl) ?_ le_rfl (fun _ _ _ => ⟨rfl, rfl⟩) id ?_
  · omega
  · unfold Ghost.base; omega
  · omega
  · intro _; constructor <;> omega
  · intro j hji hj hjlow
    have hne : g.val j ≠ g.val i := fun he => hji (h.distinct j i hj hqueued he)
    unfold Ghost.base at hjlow ⊢
    omega
  · intro hp; cases hp

/-- A move of a holder: the counters change, the first ticket that is not held does not. -/
theorem Inv.hold (h : Inv g s) {w r : Nat} {q : Place} (hi : s.place i = q) (hq : q.isQueued = false)
    (hp : p.isQueued = false) (hself : ∀ base users phantom k, Fits base users phantom t k p)
    (hticket : t = ⟨BitVec.ofNat 16 w, BitVec.ofNat 16 r, s.ticket.users⟩)
    (hread : r = w + (s.move i t p).readers)
    (hheld : w + (s.move i t p).readers + (s.move i t p).writers = g.write + s.readers + s.writers)
    (hone : (s.move i t p).writers = 0) (hothers : ∀ j, j ≠ i → (s.place j).isWriter ≠ true) :
    Inv { g with write := w, read := r } (s.move i t p) := by
  obtain ⟨_, _, cq⟩ := State.counts_move hi t p
  rw [hq, hp] at cq
  have cq := Nat.add_right_cancel cq
  have hbase : Ghost.base { g with write := w, read := r } (s.move i t p) = g.base s := by
    dsimp only [Ghost.base]
    omega
  refine h.move ?_ hread ?_ ?_ ?_ h.few (hself _ _ _ _) (fun _ _ => rfl) ?_ le_rfl ?_ id ?_
  · rw [hticket, h.ticket]
  · rw [hbase, cq]; exact h.users_eq
  · rw [hone]; exact Nat.zero_le 1
  · rw [hone]; exact fun h0 => absurd h0 (lt_irrefl 0)
  · intro j _ _ hj; rw [hbase]; exact hj
  · exact fun j hji hj => absurd hj (hothers j hji)
  · intro hp'; rw [hp] at hp'; cases hp'

/-- The store of `unlock`: the two fields are still the ones it loaded. -/
theorem Inv.left (h : Inv g s) {l : Ticket} (hi : s.place i = .unlock l) :
    Inv { g with write := g.write + 1, read := g.read + 1 }
      (s.move i { s.ticket with write := l.write + 1, read := l.read + 1 } .idle) := by
  obtain ⟨cw, cr, _⟩ := State.counts_move hi { s.ticket with write := l.write + 1, read := l.read + 1 } .idle
  simp only [Place.isWriter, Place.isReader, Bool.toNat_true, Bool.toNat_false] at cw cr
  have hr := h.read_eq
  have hone := h.one
  have halone := h.alone
  have hfits := h.fits i
  rw [hi] at hfits
  have hwriter : (s.place i).isWriter = true := by rw [hi]; rfl
  refine h.hold hi rfl rfl (fun _ _ _ _ => trivial) ?_ ?_ ?_ ?_ fun j hji => h.only_writer hwriter hji
  · rw [hfits.1, hfits.2, ofNat_succ, ofNat_succ, h.ticket]
  · dsimp only; omega
  · dsimp only; omega
  · dsimp only; omega

theorem Inv.downgraded (h : Inv g s) (hi : s.place i = .writing) :
    Inv { g with read := g.read + 1 } (s.move i { s.ticket with read := s.ticket.read + 1 } .reading) := by
  obtain ⟨cw, cr, _⟩ := State.counts_move hi { s.ticket with read := s.ticket.read + 1 } .reading
  simp only [Place.isWriter, Place.isReader, Bool.toNat_true, Bool.toNat_false] at cw cr
  have hr := h.read_eq
  have hone := h.one
  have halone := h.alone
  have hwriter : (s.place i).isWriter = true := by rw [hi]; rfl
  refine h.hold hi rfl rfl (fun _ _ _ _ => trivial) ?_ ?_ ?_ ?_ fun j hji => h.only_writer hwriter hji
  · rw [ofNat_succ, h.ticket]
  · dsimp only; omega
  · dsimp only; omega
  · dsimp only; omega

theorem Inv.leftShared (h : Inv g s) (hi : s.place i = .reading) :
    Inv { g with write := g.write + 1 } (s.move i { s.ticket with write := s.ticket.write + 1 } .idle) := by
  obtain ⟨cw, cr, _⟩ := State.counts_move hi { s.ticket with write := s.ticket.write + 1 } .idle
  simp only [Place.isWriter, Place.isReader, Bool.toNat_true, Bool.toNat_false] at cw cr
  have hr := h.read_eq
  have halone := h.alone
  -- a reader is inside, so nobody writes
  have hw0 : s.writers = 0 := by omega
  refine h.hold hi rfl rfl (fun _ _ _ _ => trivial) ?_ ?_ ?_ ?_ fun j _ => ?_
  · rw [ofNat_succ, h.ticket]
  · dsimp only; omega
  · dsimp only; omega
  · dsimp only; omega
  · exact Bool.eq_false_iff.1 (Tally.eq_false_of_count hw0 j)

/-- The swap of `tryLockShared`. The loaded `users` may be ahead of the word by tickets that were all given back
since: they become phantoms. -/
theorem Inv.takenShared (h : Inv g s) {l : Ticket} (hi : s.place i = .tryLockShared l)
    (hsame : s.ticket = { l with users := l.read })
    (hcrowd : (s.move i ⟨l.write, l.read + 1, l.users + 1⟩ .reading).crowd ≤ limit) :
    Inv { g with
          read := g.read + 1
          users := g.read + 1 + (l.users - l.read).toNat
          phantom := (l.users - l.read).toNat }
      (s.move i ⟨l.write, l.read + 1, l.users + 1⟩ .reading) := by
  obtain ⟨cw, cr, cq⟩ := State.counts_move hi ⟨l.write, l.read + 1, l.users + 1⟩ .reading
  simp only [Place.isWriter, Place.isReader, Place.isQueued, Bool.toNat_true, Bool.toNat_false] at cw cr cq
  have hfits := h.fits i
  rw [hi] at hfits
  rw [State.crowd_eq] at hcrowd
  obtain ⟨hw0, hq0, hd0⟩ := h.shareable (by rw [State.crowd_eq]; omega) (by rw [hsame])
  have hu := h.users_eq
  have hr := h.read_eq
  unfold Ghost.base at hu
  rw [h.ticket] at hsame
  injection hsame with hlw hlr _
  refine h.move ?_ ?_ ?_ ?_ ?_ (hfits hd0) trivial (fun _ _ => rfl) ?_ ?_ ?_ (fun _ => hd0) ?_
  · have hback : BitVec.ofNat 16 (g.read + 1 + (l.users - l.read).toNat) = l.users + 1 := by
      rw [BitVec.ofNat_add, ofNat_succ, hlr, BitVec.ofNat_toNat, BitVec.setWidth_eq]
      bv_omega
    rw [hback, ofNat_succ, hlw, hlr]
  · dsimp only; omega
  · dsimp only [Ghost.base]; omega
  · omega
  · omega
  · intro j _ hj
    rw [Tally.eq_false_of_count hq0 j] at hj
    cases hj
  · dsimp only; omega
  · intro j _ hj
    rw [Tally.eq_false_of_count hw0 j] at hj
    cases hj
  · intro hp; cases hp

/-- One access keeps the invariant, with counters of its own. -/
theorem Inv.step (h : Inv g s) {op : Op} (hs : step s (i, op) = some s') (hcrowd : s.crowd ≤ limit)
    (hcrowd' : s'.crowd ≤ limit) : ∃ g', Inv g' s' := by
  cases effect hs with
  | busy => exact ⟨g, h⟩
  | tried hi hfree => exact ⟨g, h.relocate hi rfl rfl rfl rfl hfree⟩
  | taken hi hsame => exact ⟨_, h.taken hi hsame hcrowd'⟩
  | missed hi => exact ⟨g, h.relocate hi rfl rfl rfl rfl trivial⟩
  | lined hi => exact ⟨_, h.lined hi⟩
  | served hi hval => exact ⟨g, h.served hi hval hcrowd⟩
  | leaving hi => exact ⟨g, h.relocate hi rfl rfl rfl rfl ⟨rfl, rfl⟩⟩
  | left hi => exact ⟨_, h.left hi⟩
  | downgraded hi => exact ⟨_, h.downgraded hi⟩
  | triedShared hi => exact ⟨g, h.relocate hi rfl rfl rfl rfl (h.loaded hcrowd)⟩
  | takenShared hi hsame => exact ⟨_, h.takenShared hi hsame hcrowd'⟩
  | missedShared hi => exact ⟨g, h.relocate hi rfl rfl rfl rfl trivial⟩
  | leftShared hi => exact ⟨_, h.leftShared hi⟩

end Inv

/-! ## Mutual exclusion -/

/-- A writer is alone: no other thread writes or reads. -/
def Exclusive (s : State ι) : Prop :=
  ∀ i j, i ≠ j → (s.place i).isWriter = true → (s.place j).isWriter = false ∧ (s.place j).isReader = false

theorem Inv.exclusive [Fintype ι] {g : Ghost ι} {s : State ι} (h : Inv g s) : Exclusive s := by
  intro i j hij hi
  constructor
  · exact Bool.eq_false_iff.2 (h.only_writer hi hij.symm)
  · exact Tally.eq_false_of_count (h.alone (Tally.count_pos hi)).1 j

/-- In a run in which at most 2^15 threads hold the lock or are in line, in every state, every writer is alone. -/
theorem exclusive_of_calm [Fintype ι] [DecidableEq ι] {as : List (ι × Op)} {s : State ι}
    (hrun : Runs.Run step (fun s _ => s.crowd ≤ limit) (init ι) as s) (hcrowd : s.crowd ≤ limit) : Exclusive s := by
  have hinv : s.crowd ≤ limit → ∃ g, Inv g s := by
    refine hrun.invariant (P := fun s => s.crowd ≤ limit → ∃ g, Inv g s) (fun _ => ⟨_, inv_init⟩) ?_
    intro s a s' ih hok hs hcrowd'
    obtain ⟨g, hg⟩ := ih hok
    exact hg.step hs hok hcrowd'
  obtain ⟨g, hg⟩ := hinv hcrowd
  exact hg.exclusive

/-- Two threads: one gets the lock for writing while the other finds it shut. -/
theorem writer_shuts_out_reader : ∃ s : State (Fin 2),
    Runs.Run step (fun s _ => s.crowd ≤ limit) (init (Fin 2))
      [(0, .writeLockAdd), (1, .tryLockSharedLoad), (0, .writeLockLoad), (1, .tryLockSharedSwap), (0, .unlockLoad)] s ∧
    (s.place 0).isWriter = true ∧ Exclusive s := by
  obtain ⟨s, hrun, htest⟩ := Runs.exists_run_of_exec step (fun s _ => s.crowd ≤ limit) (init (Fin 2))
    [(0, .writeLockAdd), (1, .tryLockSharedLoad), (0, .writeLockLoad), (1, .tryLockSharedSwap), (0, .unlockLoad)]
    (fun s => (s.place 0).isWriter && decide (s.crowd ≤ limit)) (by decide)
  rw [Bool.and_eq_true] at htest
  exact ⟨s, hrun, htest.1, exclusive_of_calm hrun (of_decide_eq_true htest.2)⟩

/-! ## A reader beside a writer -/

section Phantom

variable [DecidableEq ι]

/-- Some interleaving leads from one state to the other. -/
def Leads (s s' : State ι) : Prop := ∃ as, Runs.Run step (fun _ _ => True) s as s'

theorem Leads.trans {s s' s'' : State ι} (h : Leads s s') (h' : Leads s' s'') : Leads s s'' := by
  obtain ⟨as, has⟩ := h
  obtain ⟨bs, hbs⟩ := h'
  exact ⟨as ++ bs, has.append hbs⟩

theorem Leads.of_step {s s' : State ι} {a : ι × Op} (h : step s a = some s') : Leads s s' :=
  ⟨[a], .cons trivial h .nil⟩

/-- A thread whose turn it is takes the lock and gives it back. -/
theorem leads_pass {s : State ι} {i : ι} (hi : s.place i = .queued s.ticket.write) :
    Leads s (s.move i ⟨s.ticket.write + 1, s.ticket.read + 1, s.ticket.users⟩ .idle) := by
  have h1 : step s (i, .writeLockLoad) = some (s.move i s.ticket .writing) := by
    simp only [step, hi, ne_eq, not_true, if_false]
  have h2 : step (s.move i s.ticket .writing) (i, .unlockLoad) = some (s.move i s.ticket (.unlock s.ticket)) := by
    simp only [step, State.move, Function.update_self, Function.update_idem]
  have h3 : step (s.move i s.ticket (.unlock s.ticket)) (i, .unlockStore) =
      some (s.move i ⟨s.ticket.write + 1, s.ticket.read + 1, s.ticket.users⟩ .idle) := by
    simp only [step, State.move, Function.update_self, Function.update_idem]
  exact ((Leads.of_step h1).trans (.of_step h2)).trans (.of_step h3)

theorem leads_line {s : State ι} {i : ι} (hi : s.place i = .idle) :
    Leads s (s.move i { s.ticket with users := s.ticket.users + 1 } (.queued s.ticket.users)) :=
  .of_step (a := (i, .writeLockAdd)) (by simp only [step, hi])

/-- On a free lock a thread draws a ticket, takes the lock and gives it back, any number of times. -/
theorem leads_cycles (place : ι → Place) {i : ι} (hi : place i = .idle) (w r : BitVec 16) (n : Nat) :
    Leads ⟨⟨w, r, w⟩, place⟩
      ⟨⟨w + BitVec.ofNat 16 n, r + BitVec.ofNat 16 n, w + BitVec.ofNat 16 n⟩, place⟩ := by
  induction n with
  | zero =>
    refine ⟨[], ?_⟩
    rw [BitVec.add_zero, BitVec.add_zero]
    exact .nil
  | succ n ih =>
    rw [ofNat_succ, ← BitVec.add_assoc, ← BitVec.add_assoc]
    refine (ih.trans (leads_line (i := i) hi)).trans ?_
    have hpass := leads_pass (i := i)
      (s := State.move ⟨⟨w + BitVec.ofNat 16 n, r + BitVec.ofNat 16 n, w + BitVec.ofNat 16 n⟩, place⟩ i
        ⟨w + BitVec.ofNat 16 n, r + BitVec.ofNat 16 n, w + BitVec.ofNat 16 n + 1⟩ (.queued (w + BitVec.ofNat 16 n)))
      (Function.update_self ..)
    simp only [State.move, Function.update_idem, ← hi, Function.update_eq_self] at hpass
    exact hpass

/-- On a free lock `tryLock` succeeds. -/
theorem leads_tryLock {place : ι → Place} {i : ι} (hi : place i = .idle) (w r : BitVec 16) :
    Leads ⟨⟨w, r, w⟩, place⟩ ⟨⟨w, r, w + 1⟩, Function.update place i .writing⟩ := by
  have h1 : step ⟨⟨w, r, w⟩, place⟩ (i, .tryLockLoad) =
      some ⟨⟨w, r, w⟩, Function.update place i (.tryLock ⟨w, r, w⟩)⟩ := by
    simp only [step, hi, ne_eq, not_true, if_false, State.move]
  have h2 : step ⟨⟨w, r, w⟩, Function.update place i (.tryLock ⟨w, r, w⟩)⟩ (i, .tryLockSwap) =
      some ⟨⟨w, r, w + 1⟩, Function.update place i .writing⟩ := by
    simp only [step, Function.update_self, if_true, State.move, Function.update_idem]
  exact (Leads.of_step h1).trans (.of_step h2)

variable {N : Nat}

/-- The first `m` threads are in line, with tickets from `u` on. -/
def lineUp (place : Fin N → Place) (u : BitVec 16) (m : Nat) : Fin N → Place := fun j =>
  if j.val < m then .queued (u + BitVec.ofNat 16 j.val) else place j

/-- The first `k` threads are done. -/
def drained (place : Fin N → Place) (k : Nat) : Fin N → Place := fun j => if j.val < k then .idle else place j

theorem lineUp_succ (place : Fin N → Place) (u : BitVec 16) {m : Nat} (hm : m < N) :
    lineUp place u (m + 1) = Function.update (lineUp place u m) ⟨m, hm⟩ (.queued (u + BitVec.ofNat 16 m)) := by
  funext j
  rw [Function.update_apply]
  split
  · rename_i hj
    simp only [lineUp, hj, Nat.lt_succ_self, if_true]
  · rename_i hj
    have hne : j.val ≠ m := fun he => hj (Fin.ext he)
    have hiff : j.val < m + 1 ↔ j.val < m := by omega
    simp only [lineUp, hiff]

theorem drained_succ (place : Fin N → Place) {k : Nat} (hk : k < N) :
    drained place (k + 1) = Function.update (drained place k) ⟨k, hk⟩ .idle := by
  funext j
  rw [Function.update_apply]
  split
  · rename_i hj
    simp only [drained, hj, Nat.lt_succ_self, if_true]
  · rename_i hj
    have hne : j.val ≠ k := fun he => hj (Fin.ext he)
    have hiff : j.val < k + 1 ↔ j.val < k := by omega
    simp only [drained, hiff]

theorem leads_lineUp (place : Fin N → Place) {w r u : BitVec 16} {m : Nat} (hm : m ≤ N)
    (hidle : ∀ j : Fin N, j.val < m → place j = .idle) :
    Leads ⟨⟨w, r, u⟩, place⟩ ⟨⟨w, r, u + BitVec.ofNat 16 m⟩, lineUp place u m⟩ := by
  induction m with
  | zero =>
    have hzero : lineUp place u 0 = place := by
      funext j
      simp only [lineUp, Nat.not_lt_zero, if_false]
    rw [hzero, BitVec.add_zero]
    exact ⟨[], .nil⟩
  | succ m ih =>
    have hlast : lineUp place u m ⟨m, hm⟩ = .idle := by
      simp only [lineUp, lt_irrefl, if_false]
      exact hidle ⟨m, hm⟩ (Nat.lt_succ_self m)
    refine (ih (Nat.le_of_succ_le hm) fun j hj => hidle j (Nat.lt_succ_of_lt hj)).trans ?_
    rw [lineUp_succ place u hm, ofNat_succ, ← BitVec.add_assoc]
    exact leads_line (s := ⟨⟨w, r, u + BitVec.ofNat 16 m⟩, lineUp place u m⟩) hlast

/-- The line is served, one thread after the other. -/
theorem leads_drained {place : Fin N → Place} {w r u : BitVec 16} {m : Nat} (hm : m ≤ N)
    (hline : ∀ j : Fin N, j.val < m → place j = .queued (w + BitVec.ofNat 16 j.val)) :
    Leads ⟨⟨w, r, u⟩, place⟩ ⟨⟨w + BitVec.ofNat 16 m, r + BitVec.ofNat 16 m, u⟩, drained place m⟩ := by
  induction m with
  | zero =>
    have hzero : drained place 0 = place := by
      funext j
      simp only [drained, Nat.not_lt_zero, if_false]
    rw [hzero, BitVec.add_zero, BitVec.add_zero]
    exact ⟨[], .nil⟩
  | succ m ih =>
    have hturn : drained place m ⟨m, hm⟩ = .queued (w + BitVec.ofNat 16 m) := by
      simp only [drained, lt_irrefl, if_false]
      exact hline ⟨m, hm⟩ (Nat.lt_succ_self m)
    refine (ih (Nat.le_of_succ_le hm) fun j hj => hline j (Nat.lt_succ_of_lt hj)).trans ?_
    rw [drained_succ place hm, ofNat_succ, ← BitVec.add_assoc, ← BitVec.add_assoc]
    exact leads_pass (s := ⟨⟨w + BitVec.ofNat 16 m, r + BitVec.ofNat 16 m, u⟩, drained place m⟩) hturn

/-- All threads but the last are in line, and the last has loaded the word in `tryLockShared`. -/
def loadedBehindLine (n : Nat) : Fin (n + 2) → Place :=
  Function.update (lineUp (fun _ => .idle) 0 (n + 1)) (Fin.last (n + 1))
    (.tryLockShared ⟨0, 0, BitVec.ofNat 16 (n + 1)⟩)

/-- The line is gone and the last thread is inside. -/
def readerAlone (n : Nat) : Fin (n + 2) → Place :=
  Function.update (drained (loadedBehindLine n) (n + 1)) (Fin.last (n + 1)) .reading

theorem loadedBehindLine_lt {n : Nat} (j : Fin (n + 2)) (hj : j.val < n + 1) :
    loadedBehindLine n j = .queued (0 + BitVec.ofNat 16 j.val) := by
  have hne : j ≠ Fin.last (n + 1) := fun he => by rw [he, Fin.val_last] at hj; exact lt_irrefl _ hj
  rw [loadedBehindLine, Function.update_of_ne hne, lineUp, if_pos hj]

theorem readerAlone_lt {n : Nat} (j : Fin (n + 2)) (hj : j.val < n + 1) : readerAlone n j = .idle := by
  have hne : j ≠ Fin.last (n + 1) := fun he => by rw [he, Fin.val_last] at hj; exact lt_irrefl _ hj
  rw [readerAlone, Function.update_of_ne hne, drained, if_pos hj]

theorem leads_loadedBehindLine (n : Nat) :
    Leads (init (Fin (n + 2))) ⟨⟨0, 0, BitVec.ofNat 16 (n + 1)⟩, loadedBehindLine n⟩ := by
  have hline : Leads (init (Fin (n + 2))) ⟨⟨0, 0, BitVec.ofNat 16 (n + 1)⟩, lineUp (fun _ => .idle) 0 (n + 1)⟩ := by
    have h := leads_lineUp (w := 0) (r := 0) (u := 0) (N := n + 2) (fun _ => .idle) (Nat.le_succ (n + 1)) fun _ _ => rfl
    rw [show 0 + BitVec.ofNat 16 (n + 1) = BitVec.ofNat 16 (n + 1) from BitVec.zero_add _] at h
    exact h
  refine hline.trans (.of_step (a := (Fin.last (n + 1), .tryLockSharedLoad)) ?_)
  have hlast : lineUp (fun _ => .idle) 0 (n + 1) (Fin.last (n + 1)) = .idle := by
    rw [lineUp, Fin.val_last, if_neg (lt_irrefl _)]
  simp only [step, hlast]
  rfl

/-- When the fields have gone round, the swap of the last thread succeeds with the `users` of before. -/
theorem leads_readerAlone {n : Nat} (hn : BitVec.ofNat 16 (n + 1) + BitVec.ofNat 16 (n + 1) = 0) :
    Leads ⟨⟨0, 0, BitVec.ofNat 16 (n + 1)⟩, loadedBehindLine n⟩
      ⟨⟨0, 1, BitVec.ofNat 16 (n + 1) + 1⟩, readerAlone n⟩ := by
  have hdrained := leads_drained (w := 0) (r := 0) (u := BitVec.ofNat 16 (n + 1))
    (Nat.le_succ (n + 1)) loadedBehindLine_lt
  have hround := leads_cycles (drained (loadedBehindLine n) (n + 1)) (i := 0) (if_pos (Nat.succ_pos n))
    (BitVec.ofNat 16 (n + 1)) (BitVec.ofNat 16 (n + 1)) (n + 1)
  rw [hn] at hround
  rw [show 0 + BitVec.ofNat 16 (n + 1) = BitVec.ofNat 16 (n + 1) from BitVec.zero_add _] at hdrained
  refine (hdrained.trans hround).trans (.of_step (a := (Fin.last (n + 1), .tryLockSharedSwap)) ?_)
  have hlast : drained (loadedBehindLine n) (n + 1) (Fin.last (n + 1)) =
      .tryLockShared ⟨0, 0, BitVec.ofNat 16 (n + 1)⟩ := by
    rw [drained, Fin.val_last, if_neg (lt_irrefl _), loadedBehindLine, Function.update_self]
  simp only [step, hlast, if_true]
  rfl

/-- With `n + 2` threads: the last one loads the word while all others are in line, and swaps when the fields have
gone round. The word it stores is ahead by `n + 1` tickets, and `n` threads more bring `users` back to `write`. -/
theorem leads_writing {n : Nat} (hn : BitVec.ofNat 16 (n + 1) + BitVec.ofNat 16 (n + 1) = 0) :
    ∃ (s : State (Fin (n + 2))) (i j : Fin (n + 2)),
      Leads (init (Fin (n + 2))) s ∧ i ≠ j ∧ s.place i = .writing ∧ s.place j = .reading := by
  have hreader := (leads_loadedBehindLine n).trans (leads_readerAlone hn)
  have hline := leads_lineUp (readerAlone n) (w := 0) (r := 1) (u := BitVec.ofNat 16 (n + 1) + 1)
    (m := n) (by omega) fun j hj => readerAlone_lt j (Nat.lt_succ_of_lt hj)
  -- `users` has gone round to `write` while the reader is inside
  have hback : BitVec.ofNat 16 (n + 1) + 1 + BitVec.ofNat 16 n = 0 := by
    rw [← hn, BitVec.add_assoc, BitVec.add_comm 1, ← ofNat_succ]
  rw [hback] at hline
  have hidle : lineUp (readerAlone n) (BitVec.ofNat 16 (n + 1) + 1) n ⟨n, by omega⟩ = .idle := by
    rw [lineUp, if_neg (lt_irrefl n)]
    exact readerAlone_lt _ (Nat.lt_succ_self n)
  have hne : (⟨n, by omega⟩ : Fin (n + 2)) ≠ Fin.last (n + 1) := by
    intro he
    have hval : n = n + 1 := congrArg Fin.val he
    omega
  refine ⟨_, ⟨n, by omega⟩, Fin.last (n + 1), (hreader.trans hline).trans (leads_tryLock hidle 0 1), hne, ?_, ?_⟩
  · exact Function.update_self ..
  · have hlast : ¬(Fin.last (n + 1)).val < n := by rw [Fin.val_last]; omega
    dsimp only
    rw [Function.update_of_ne hne.symm, lineUp, if_neg hlast, readerAlone, Function.update_self]

/-- Fewer than 2^16 is too many: with 2^15 + 1 threads a reader gets inside beside a writer. -/
theorem reader_beside_writer : ∃ (as : List (Fin (2 ^ 15 + 1) × Op)) (s : State (Fin (2 ^ 15 + 1))),
    Runs.Run step (fun s _ => s.crowd < 2 ^ 16) (init (Fin (2 ^ 15 + 1))) as s ∧ s.crowd < 2 ^ 16 ∧ ¬Exclusive s := by
  have hcrowd : ∀ s : State (Fin (2 ^ 15 + 1)), s.crowd < 2 ^ 16 := by
    intro s
    have hle := Tally.count_le_card (fun p : Place => p.isWriter || (p.isReader || p.isQueued)) s.place
    rw [Fintype.card_fin] at hle
    exact lt_of_le_of_lt hle (by decide)
  obtain ⟨s, i, j, ⟨as, hrun⟩, hij, hi, hj⟩ := leads_writing (n := 2 ^ 15 - 1) (by decide)
  refine ⟨as, s, hrun.weaken fun s _ _ => hcrowd s, hcrowd s, fun hex => ?_⟩
  have := (hex i j hij (by rw [hi]; rfl)).2
  rw [hj] at this
  cases this

end Phantom

end RapidTransfer.RWSpinlock
