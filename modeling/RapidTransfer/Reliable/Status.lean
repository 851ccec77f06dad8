/-
The status of a task of the reliable protocol. `getStatus` folds the requests of a task into one status, and counts the
bytes of those that succeeded. A request has at most one outcome, so a status that is no longer `PENDING` stays, and the
same holds of the summary. The count of bytes is a `size_t`: it wraps when the lengths of a task reach 2^64
(`transferred_bytes_wrap`), and never decreases otherwise.

`getStatus` does not hold a lock while it reads the requests, so a driver may write some of them during the call; such a
call is a `Reading`.
-/
import RapidTransfer.Reliable.Outcomes

namespace RapidTransfer.Reliable

/-! ## The summary of a task -/

/-- One turn of the loop of `getStatus`: the summary, and the bytes in a `size_t`. -/
def tally (acc : Status × Nat) (entry : Request) : Status × Nat :=
  let bytes := if entry.status = .success then (acc.2 + entry.length) % 2 ^ 64 else acc.2
  let summary := if entry.status = .pending ∧ acc.1 = .success then .pending else acc.1
  (if entry.status = .failed then entry.status else summary, bytes)

def summarize (requestList : List Request) : Status × Nat := requestList.foldl tally (.success, 0)

/-- `getStatus`, with what it writes through `transferred_bytes`. -/
def Protocol.getStatus (s : Protocol) (id : Nat) : Status × Option Nat :=
  match s.taskMap (s.taskOf id) with
  | none => (.unknown, none)
  | some t => ((summarize t.requestList).1, some (summarize t.requestList).2)

/-- The bytes of the requests that succeeded. -/
def succeededBytes (requestList : List Request) : Nat :=
  (requestList.map fun r => if r.status = .success then r.length else 0).sum

theorem Protocol.getStatus_some {s : Protocol} {id : Nat} {t : Task} (h : s.taskMap (s.taskOf id) = some t) :
    s.getStatus id = ((summarize t.requestList).1, some (summarize t.requestList).2) := by
  unfold getStatus
  rw [h]

theorem foldl_tally_fst (requestList : List Request) (acc : Status × Nat) :
    (requestList.foldl tally acc).1 =
      if ∃ r ∈ requestList, r.status = .failed then .failed
      else if acc.1 = .success ∧ ∃ r ∈ requestList, r.status = .pending then .pending else acc.1 := by
  induction requestList generalizing acc with
  | nil => simp
  | cons r rs ih =>
    rw [List.foldl_cons, ih]
    cases hr : r.status <;> cases ha : acc.1 <;> simp [tally, hr, ha]

theorem foldl_tally_snd (requestList : List Request) {acc : Status × Nat} (hacc : acc.2 < 2 ^ 64) :
    (requestList.foldl tally acc).2 = (acc.2 + succeededBytes requestList) % 2 ^ 64 := by
  induction requestList generalizing acc with
  | nil => exact (Nat.mod_eq_of_lt hacc).symm
  | cons r rs ih =>
    have hbytes : succeededBytes (r :: rs) = (if r.status = .success then r.length else 0) + succeededBytes rs := rfl
    rw [List.foldl_cons, hbytes]
    by_cases hr : r.status = .success
    · have hsnd : (tally acc r).2 = (acc.2 + r.length) % 2 ^ 64 := if_pos hr
      rw [ih (hsnd ▸ Nat.mod_lt _ (by decide)), hsnd, if_pos hr, Nat.mod_add_mod, Nat.add_assoc]
    · have hsnd : (tally acc r).2 = acc.2 := if_neg hr
      rw [ih (hsnd ▸ hacc), hsnd, if_neg hr, Nat.zero_add]

theorem summarize_failed_iff (requestList : List Request) :
    (summarize requestList).1 = .failed ↔ ∃ r ∈ requestList, r.status = .failed := by
  unfold summarize
  rw [foldl_tally_fst]
  split
  · rename_i hfailed
    exact iff_of_true rfl hfailed
  · rename_i hfailed
    refine iff_of_false ?_ hfailed
    split <;> exact fun h => by cases h

theorem summarize_success_iff (requestList : List Request) :
    (summarize requestList).1 = .success ↔ ∀ r ∈ requestList, r.status ≠ .failed ∧ r.status ≠ .pending := by
  unfold summarize
  rw [foldl_tally_fst]
  split
  · rename_i hfailed
    obtain ⟨r, hr, hst⟩ := hfailed
    exact iff_of_false (fun h => by cases h) fun h => (h r hr).1 hst
  · rename_i hfailed
    split
    · rename_i hpending
      obtain ⟨-, r, hr, hst⟩ := hpending
      exact iff_of_false (fun h => by cases h) fun h => (h r hr).2 hst
    · rename_i hpending
      refine iff_of_true rfl fun r hr => ⟨fun hst => hfailed ⟨r, hr, hst⟩, fun hst => hpending ⟨rfl, r, hr, hst⟩⟩

theorem summarize_known (requestList : List Request) : (summarize requestList).1 ≠ .unknown := by
  unfold summarize
  rw [foldl_tally_fst]
  split
  · exact fun h => by cases h
  · split <;> exact fun h => by cases h

theorem summarize_bytes (requestList : List Request) :
    (summarize requestList).2 = succeededBytes requestList % 2 ^ 64 := by
  unfold summarize
  rw [foldl_tally_snd requestList (by decide), Nat.zero_add]

/-- The turns of the loop may be exchanged. -/
instance : RightCommutative tally where
  right_comm acc r r' := by
    have hfst : (tally (tally acc r) r').1 = (tally (tally acc r') r).1 := by
      cases hr : r.status <;> cases hr' : r'.status <;> cases ha : acc.1 <;> simp [tally, hr, hr', ha]
    have hsnd : (tally (tally acc r) r').2 = (tally (tally acc r') r).2 := by
      have hcomm : (acc.2 + r.length + r'.length) = (acc.2 + r'.length + r.length) := Nat.add_right_comm _ _ _
      simp only [tally]
      split <;> split
      · rw [Nat.mod_add_mod, Nat.mod_add_mod, hcomm]
      · rfl
      · rfl
      · rfl
    exact Prod.ext hfst hsnd

theorem summarize_perm {l l' : List Request} (h : l.Perm l') : summarize l = summarize l' := h.foldl_eq _

theorem succeededBytes_le (requestList : List Request) :
    succeededBytes requestList ≤ (requestList.map (·.length)).sum := by
  refine List.sum_le_sum fun r _ => ?_
  split
  · exact le_rfl
  · exact Nat.zero_le _

/-! ## Later looks at a request -/

/-- A later look at a request: the length is the same, and so is the status once it is no longer pending. -/
structure Request.Before (r r' : Request) : Prop where
  length : r'.length = r.length
  status : r.status ≠ .pending → r'.status = r.status

section before

variable {l l' : List Request}

theorem summarize_of_before (h : List.Forall₂ Request.Before l l') (hst : (summarize l).1 ≠ .pending) :
    (summarize l').1 = (summarize l).1 := by
  -- the summary so far is `PENDING`, or the later summary is the same
  have hturn : ∀ acc acc' : Status × Nat, (acc.1 ≠ .unknown ∧ (acc.1 ≠ .pending → acc'.1 = acc.1)) →
      ∀ r r' : Request, r.Before r' →
      (tally acc r).1 ≠ .unknown ∧ ((tally acc r).1 ≠ .pending → (tally acc' r').1 = (tally acc r).1) := by
    rintro ⟨st, n⟩ ⟨st', n'⟩ ⟨hknown, hsame⟩ r r' hr
    have hstatus := hr.status
    cases hs : r.status <;> cases hs' : r'.status <;> cases st <;> cases st' <;>
      simp_all [tally]
  have hfold := List.rel_foldl
    (P := fun acc acc' : Status × Nat => acc.1 ≠ .unknown ∧ (acc.1 ≠ .pending → acc'.1 = acc.1))
    (R := Request.Before) (fun _ _ ha _ _ hr => hturn _ _ ha _ _ hr)
    (show ((Status.success, 0) : Status × Nat).1 ≠ .unknown ∧ _ from ⟨by decide, fun _ => rfl⟩) h
  exact hfold.2 hst

theorem succeededBytes_of_before (h : List.Forall₂ Request.Before l l') : succeededBytes l ≤ succeededBytes l' := by
  induction h with
  | nil => exact le_rfl
  | @cons r r' rs rs' hr _ ih =>
    have hle : (if r.status = .success then r.length else 0) ≤ if r'.status = .success then r'.length else 0 := by
      split
      · rename_i hst
        rw [if_pos ((hr.status (hst ▸ by decide)).trans hst), hr.length]
      · exact Nat.zero_le _
    exact Nat.add_le_add hle ih

theorem length_of_before (h : List.Forall₂ Request.Before l l') : l'.map (·.length) = l.map (·.length) := by
  induction h with
  | nil => rfl
  | cons hr _ ih => rw [List.map_cons, List.map_cons, hr.length, ih]

end before

/-! ## The status of a task -/

namespace Observed

open Protocol

variable {id : Nat} {x y : Observed}

/-- The lengths of the requests that have succeeded. -/
def succeeded (x : Observed) (id : Nat) (requestList : List Request) : Nat :=
  (requestList.mapIdx fun i r => if ⟨id, i, true⟩ ∈ x.outcomes then r.length else 0).sum

section one

variable {t : Task}

theorem statusAt_getElem (ht : x.driven.protocol.taskMap id = some t) {i : Nat} (hi : i < t.requestList.length) :
    x.driven.protocol.statusAt id i = some (t.requestList[i]).status := by
  simp [statusAt, ht, hi]

theorem success_iff (h : x.driven.protocol.Tracked id x.outcomes) (ht : x.driven.protocol.taskMap id = some t) :
    (summarize t.requestList).1 = .success ↔ ∀ i < t.requestList.length, ⟨id, i, true⟩ ∈ x.outcomes := by
  rw [summarize_success_iff, List.forall_mem_iff_forall_getElem]
  refine forall₂_congr fun i hi => ?_
  rw [h.recorded, statusAt_getElem ht hi]
  have hknown := h.known i
  rw [statusAt_getElem ht hi] at hknown
  cases hst : (t.requestList[i]).status <;> simp_all

theorem failed_iff (h : x.driven.protocol.Tracked id x.outcomes) (ht : x.driven.protocol.taskMap id = some t) :
    (summarize t.requestList).1 = .failed ↔ ∃ i, ⟨id, i, false⟩ ∈ x.outcomes := by
  rw [summarize_failed_iff, List.exists_mem_iff_exists_getElem]
  constructor
  · rintro ⟨i, hi, hst⟩
    exact ⟨i, (h.recorded i false).2 ((statusAt_getElem ht hi).trans (congrArg some hst))⟩
  · rintro ⟨i, hmem⟩
    have hst := (h.recorded i false).1 hmem
    have hi : i < t.requestList.length := by
      by_contra hi
      rw [statusAt_beyond ht (not_lt.1 hi)] at hst
      cases hst
    rw [statusAt_getElem ht hi] at hst
    exact ⟨i, hi, Option.some.inj hst⟩

theorem succeededBytes_eq (h : x.driven.protocol.Tracked id x.outcomes) (ht : x.driven.protocol.taskMap id = some t) :
    succeededBytes t.requestList = x.succeeded id t.requestList := by
  refine congrArg List.sum (List.ext_getElem (by simp) fun i h1 h2 => ?_)
  have hi : i < t.requestList.length := by simpa using h1
  have hiff : ⟨id, i, true⟩ ∈ x.outcomes ↔ (t.requestList[i]).status = .success := by
    rw [h.recorded, statusAt_getElem ht hi]
    simp
  simp only [List.getElem_map, List.getElem_mapIdx, hiff]

/-- Along a run that does not free the task, its requests are seen again, each no earlier than before. -/
theorem before_run (h : Known id x) (ht : x.driven.protocol.taskMap id = some t)
    {bs : List Driven.Action} (hrun : Runs.Run step (keeps id) x bs y) :
    Known id y ∧
      ∃ t', y.driven.protocol.taskMap id = some t' ∧ List.Forall₂ Request.Before t.requestList t'.requestList := by
  have hlengths : x.driven.protocol.lengths id = some (t.requestList.map (·.length)) := by simp [lengths, ht]
  have hinv := hrun.invariant (P := fun y : Observed => Known id y ∧
    x.outcomes ⊆ y.outcomes ∧ y.driven.protocol.lengths id = x.driven.protocol.lengths id)
    ⟨h, List.Subset.refl _, rfl⟩ ?_
  · obtain ⟨hy, hlog, hlen⟩ := hinv
    obtain ⟨t', ht', hlen⟩ := Option.map_eq_some_iff.1 (hlen.trans hlengths)
    refine ⟨hy, t', ht', List.forall₂_iff_get.2 ⟨?_, fun i h1 h2 => ⟨?_, fun hst => ?_⟩⟩⟩
    · simpa using (congrArg List.length hlen).symm
    · simpa [h1, h2] using congrArg (·[i]?) hlen
    · -- a status that is not `PENDING` is an outcome, and the record only grows
      have hx := statusAt_getElem ht h1
      obtain ⟨b, hb⟩ : ∃ b : Bool, (t.requestList[i]).status = if b then .success else .failed := by
        have hknown := h.tracked.known i
        rw [hx] at hknown
        cases hs : (t.requestList[i]).status with
        | unknown => exact absurd (congrArg some hs) hknown
        | pending => exact absurd hs hst
        | success => exact ⟨true, rfl⟩
        | failed => exact ⟨false, rfl⟩
      have hmem := hlog ((h.tracked.recorded i b).2 (hx.trans (congrArg some hb)))
      have hsame := (hy.tracked.recorded i b).1 hmem
      rw [statusAt_getElem ht' h2] at hsame
      exact (Option.some.inj hsame).trans hb.symm
  · rintro y a y' ⟨hy, hlog, hlen⟩ hk hs
    have hlen' := (tracked_step hy.tracked hy.current hk hs).2
    refine ⟨hy.step hk hs, ?_, (hlen' ?_).trans hlen⟩
    · obtain ⟨z, -, rfl⟩ := Option.map_eq_some_iff.1 hs
      exact fun o ho => List.mem_append_left _ (hlog ho)
    · by_contra hid
      have hgone := (hy.tracked.issued (not_lt.1 hid)).2.1
      rw [hlengths] at hlen
      unfold lengths at hlen
      rw [hgone] at hlen
      cases hlen

/-- What a call of `getStatus` reads that begins in `x` and ends in `y`: the requests of the task one by one, each in a
state between the two. -/
structure Reading (id : Nat) (x y : Observed) (entries : List Request) : Prop where
  length : ∀ t, x.driven.protocol.taskMap id = some t → entries.length = t.requestList.length
  between : ∀ (i : Nat) (r : Request), entries[i]? = some r → ∃ as z bs t,
    Runs.Run step (keeps id) x as z ∧ Runs.Run step (keeps id) z bs y ∧
    z.driven.protocol.taskMap id = some t ∧ t.requestList[i]? = some r

theorem before_reading (h : Known id x) (ht : x.driven.protocol.taskMap id = some t)
    {t' : Task} (ht' : y.driven.protocol.taskMap id = some t') (hlen : t'.requestList.length = t.requestList.length)
    {entries : List Request} (hread : Reading id x y entries) :
    List.Forall₂ Request.Before t.requestList entries ∧ List.Forall₂ Request.Before entries t'.requestList := by
  have hentries := hread.length t ht
  have hlook : ∀ i (h1 : i < t.requestList.length) (h2 : i < entries.length) (h3 : i < t'.requestList.length),
      (t.requestList.get ⟨i, h1⟩).Before (entries.get ⟨i, h2⟩) ∧
        (entries.get ⟨i, h2⟩).Before (t'.requestList.get ⟨i, h3⟩) := by
    intro i h1 h2 h3
    obtain ⟨as, z, bs, tz, hxz, hzy, htz, hr⟩ := hread.between i _ (List.getElem?_eq_getElem h2)
    obtain ⟨hz, tz', htz', hbefore⟩ := before_run h ht hxz
    obtain rfl : tz' = tz := Option.some.inj (htz'.symm.trans htz)
    obtain ⟨-, ty, hty, hafter⟩ := before_run hz htz hzy
    obtain rfl : ty = t' := Option.some.inj (hty.symm.trans ht')
    obtain ⟨hi, hr⟩ := List.getElem?_eq_some_iff.1 hr
    have hleft := (List.forall₂_iff_get.1 hbefore).2 i h1 hi
    have hright := (List.forall₂_iff_get.1 hafter).2 i hi h3
    simp only [List.get_eq_getElem, hr] at hleft hright ⊢
    exact ⟨hleft, hright⟩
  constructor
  · exact List.forall₂_iff_get.2 ⟨hentries.symm, fun i h1 h2 => (hlook i h1 h2 (by omega)).1⟩
  · exact List.forall₂_iff_get.2 ⟨hentries.trans hlen.symm, fun i h1 h2 => (hlook i (by omega) h1 h2).2⟩

end one

/-- Two looks at a task, one no earlier than the other. -/
theorem summarize_before {l l' : List Request} (h : List.Forall₂ Request.Before l l') :
    ((summarize l).1 ≠ .pending → (summarize l').1 = (summarize l).1) ∧
      ((l.map (·.length)).sum < 2 ^ 64 → (summarize l).2 ≤ (summarize l').2) := by
  refine ⟨summarize_of_before h, fun hfit => ?_⟩
  have hle := succeededBytes_of_before h
  have hfit' := (succeededBytes_le l').trans_lt (length_of_before h ▸ hfit)
  rw [summarize_bytes, summarize_bytes, Nat.mod_eq_of_lt (hle.trans_lt hfit'), Nat.mod_eq_of_lt hfit']
  exact hle

/-- In every run that does not free the task, does not give its id out again, and gave it an id that was not waiting in
`pending_task_`, `getStatus` says what became of its requests: `SUCCESS` when all have succeeded and `FAILED` when one
has failed, in whatever order they are listed, with the bytes of those that succeeded as a `size_t`. In every
continuation of this kind the first two stay, and so do the bytes or they grow, when the lengths of the task fit a
`size_t`. A call that takes its time lies between the calls at its two ends. -/
theorem status_sound_and_final (spawnWorker : Bool) (maxWrPerQp : Nat) (regions : List MemoryRegion)
    (connected : List String) (id : Nat) (as : List Driven.Action) (x : Observed) (t : Task)
    (hrun : Runs.Run step (keeps id) (start spawnWorker maxWrPerQp regions connected) as x)
    (ht : x.driven.protocol.taskMap id = some t) :
    ∃ st n, x.driven.protocol.getStatus id = (st, some n) ∧ st ≠ .unknown ∧
    (st = .success ↔ ∀ i < t.requestList.length, ⟨id, i, true⟩ ∈ x.outcomes) ∧
    (st = .failed ↔ ∃ i, ⟨id, i, false⟩ ∈ x.outcomes) ∧
    (∀ i, ⟨id, i, true⟩ ∈ x.outcomes → ⟨id, i, false⟩ ∉ x.outcomes) ∧
    (∀ l : List Request, l.Perm t.requestList → summarize l = (st, n)) ∧
    n = x.succeeded id t.requestList % 2 ^ 64 ∧
    ((t.requestList.map (·.length)).sum < 2 ^ 64 → n = x.succeeded id t.requestList) ∧
    ∀ bs y, Runs.Run step (keeps id) x bs y → ∃ st' n', y.driven.protocol.getStatus id = (st', some n') ∧
      (st ≠ .pending → st' = st) ∧ ((t.requestList.map (·.length)).sum < 2 ^ 64 → n ≤ n') ∧
      ∀ entries, Reading id x y entries →
        (st ≠ .pending → (summarize entries).1 = st) ∧
        ((summarize entries).1 ≠ .pending → st' = (summarize entries).1) ∧
        ((t.requestList.map (·.length)).sum < 2 ^ 64 → n ≤ (summarize entries).2 ∧ (summarize entries).2 ≤ n') := by
  have hknown := Known.run hrun
  have h := hknown.tracked
  have hbytes := succeededBytes_eq h ht
  refine ⟨_, _, getStatus_some ((hknown.taskOf_eq ht).symm ▸ ht), summarize_known _, success_iff h ht,
    failed_iff h ht, ?_,
    fun l hl => summarize_perm hl, ?_, ?_, ?_⟩
  · intro i htrue hfalse
    have hst := ((h.recorded i true).1 htrue).symm.trans ((h.recorded i false).1 hfalse)
    cases hst
  · rw [summarize_bytes, hbytes]
  · intro hfit
    rw [summarize_bytes, Nat.mod_eq_of_lt ((succeededBytes_le _).trans_lt hfit), hbytes]
  · intro bs y hxy
    obtain ⟨hlater, t', ht', hbefore⟩ := before_run hknown ht hxy
    have hsum := summarize_before hbefore
    refine ⟨_, _, getStatus_some ((hlater.taskOf_eq ht').symm ▸ ht'), hsum.1, hsum.2, fun entries hread => ?_⟩
    obtain ⟨hleft, hright⟩ := before_reading hknown ht ht' hbefore.length_eq.symm hread
    have hl := summarize_before hleft
    have hr := summarize_before hright
    refine ⟨hl.1, hr.1, fun hfit => ⟨hl.2 hfit, hr.2 ?_⟩⟩
    rw [length_of_before hleft]
    exact hfit

/-- Three requests of which the verb refuses the last, and the first has completed: the task has failed for good,
whatever becomes of the second one. -/
theorem partly_posted_task_fails : ∃ x,
    Runs.Run step (keeps 0) (start false 4 [smallRegion] ["a"])
      [.send "a" [⟨100, 2⟩, ⟨102, 3⟩, ⟨105, 4⟩] true, .take, .post (some 2), .complete ⟨⟨.send, "a", 0, 0⟩, true⟩] x ∧
    x.driven.protocol.getStatus 0 = (.failed, some 2) ∧
    ∀ bs y, Runs.Run step (keeps 0) x bs y → ∃ n, y.driven.protocol.getStatus 0 = (.failed, some n) ∧ 2 ≤ n := by
  obtain ⟨x, hrun, htest⟩ := Runs.exists_run_of_exec step (keeps 0) (start false 4 [smallRegion] ["a"])
    [.send "a" [⟨100, 2⟩, ⟨102, 3⟩, ⟨105, 4⟩] true, .take, .post (some 2), .complete ⟨⟨.send, "a", 0, 0⟩, true⟩]
    (fun x : Observed => decide (x.driven.protocol.getStatus 0 = (.failed, some 2)) &&
      (x.driven.protocol.taskMap 0).any fun t : Task => decide ((t.requestList.map (·.length)).sum = 9))
    (by decide +kernel)
  obtain ⟨hstatus, htest⟩ := Bool.and_eq_true_iff.1 htest
  obtain ⟨t, ht, hlen⟩ := (Option.any_eq_true _ _).1 htest
  have hstatus := of_decide_eq_true hstatus
  have hlen := of_decide_eq_true hlen
  obtain ⟨st, n, hst, -, -, -, -, -, -, -, hlater⟩ :=
    status_sound_and_final false 4 [smallRegion] ["a"] 0 _ x t hrun ht
  cases hstatus.symm.trans hst
  refine ⟨x, hrun, hstatus, fun bs y hxy => ?_⟩
  obtain ⟨st', n', hst', hfinal, hbytes, -⟩ := hlater bs y hxy
  cases hfinal (by decide)
  exact ⟨n', hst', hbytes (by rw [hlen]; decide)⟩

/-- Two requests of 2^63 bytes: half of the bytes are reported when one of them has succeeded, and none when both
have. -/
theorem transferred_bytes_wrap : ∃ x y t,
    Runs.Run step (keeps 0) (start false 4 [smallRegion] ["a"])
      [.send "a" [⟨100, 2 ^ 63⟩, ⟨101, 2 ^ 63⟩] true, .take, .post none, .complete ⟨⟨.send, "a", 0, 0⟩, true⟩] x ∧
    Runs.Run step (keeps 0) x [.complete ⟨⟨.send, "a", 0, 1⟩, true⟩] y ∧
    x.driven.protocol.getStatus 0 = (.pending, some (2 ^ 63)) ∧ y.driven.protocol.getStatus 0 = (.success, some 0) ∧
    y.driven.protocol.taskMap 0 = some t ∧ y.succeeded 0 t.requestList = 2 ^ 64 := by
  obtain ⟨x, hrun, htest⟩ := Runs.exists_run_of_exec step (keeps 0) (start false 4 [smallRegion] ["a"])
    [.send "a" [⟨100, 2 ^ 63⟩, ⟨101, 2 ^ 63⟩] true, .take, .post none, .complete ⟨⟨.send, "a", 0, 0⟩, true⟩]
    (fun x : Observed => decide (x.driven.protocol.getStatus 0 = (.pending, some (2 ^ 63))) &&
      (Runs.exec step (keeps 0) x [.complete ⟨⟨.send, "a", 0, 1⟩, true⟩]).any fun y : Observed =>
        decide (y.driven.protocol.getStatus 0 = (.success, some 0)) &&
          (y.driven.protocol.taskMap 0).any fun t : Task => decide (y.succeeded 0 t.requestList = 2 ^ 64))
            (by decide +kernel)
  obtain ⟨hx, htest⟩ := Bool.and_eq_true_iff.1 htest
  obtain ⟨y, hrun', htest⟩ := Runs.exists_run_of_exec step (keeps 0) x _ _ htest
  obtain ⟨hy, htest⟩ := Bool.and_eq_true_iff.1 htest
  obtain ⟨t, ht, hbytes⟩ := (Option.any_eq_true _ _).1 htest
  exact ⟨x, y, t, hrun, hrun', of_decide_eq_true hx, of_decide_eq_true hy, ht, of_decide_eq_true hbytes⟩

end Observed

end RapidTransfer.Reliable
