import SecurePastebin.Ratelimit.Window

/-!
# Calls within the limit

A call is counted at its place in the lifetime of its bucket, and passes if that
place is within the limit.  The exception is the millisecond in which a lifetime
ends: the key is still there and is counted on, but has no time left, and a
reply without time left counts as malformed.
-/

namespace SecurePastebin.Ratelimit

open Text Calendar Process
open Interleaving FixedWindow

/-- The place the next call on a bucket takes in the lifetime it falls in. -/
def Store.position (store : Store) (bucket : Bytes) : ℕ :=
  ((store.buckets.hits bucket).filter fun found =>
    millis store.clock ≤ found.after.expireAt).length + 1

/-- A lifetime of the bucket ends in this very millisecond. -/
def Store.AtBoundary (store : Store) (bucket : Bytes) : Prop :=
  ∃ found ∈ store.buckets.hits bucket, found.after.expireAt = millis store.clock

variable {limiter : Limiter} {scope : Scope} {rule : Rule} {key : Bytes} {trace : List Step}
variable {mid next : Config}

/-- Under a rule that limits, a call is one script call. -/
theorem allow_eq_call (hrule : limiter.rules scope = some rule) (hconnected : limiter.connected = true)
    (hlimit : 0 < rule.limit) (hwindow : 1 ≤ rule.windowMillis) :
    allow limiter scope key = .call (.fixedWindow (bucketKey scope key) rule.windowMillis)
      fun answer => .ret (decision rule answer) := by
  simp only [allow, hrule]
  rw [if_neg (by omega), if_neg (by omega), hconnected]
  rfl

/-- Once its script is answered, a call returns what the reply comes to. -/
theorem allow_answered (hrule : limiter.rules scope = some rule) {request : Call}
    {answer : request.Reply} {point : Call ⊕ Decision}
    (hreach : (allow limiter scope key).Reaches [⟨request, answer⟩] point) :
    ∃ values, (⟨request, answer⟩ : Step) =
        ⟨.fixedWindow (bucketKey scope key) rule.windowMillis, values⟩ ∧
      point = .inr (decision rule values) := by
  simp only [allow, hrule] at hreach
  split_ifs at hreach
  · cases hreach.1
  · cases hreach.1
  · cases hreach.1
  · rw [Proc.map_eq_bind, Proc.perform_bind, Proc.reaches_call] at hreach
    rcases hreach with ⟨⟨⟩, -⟩ | ⟨values, tail, htrace, hret⟩
    obtain ⟨hentry, rfl⟩ := List.cons.inj htrace
    exact ⟨values, hentry, hret.2⟩

/-- The advance of a call is its script on its bucket, and its return. -/
theorem advance_allow (hrule : limiter.rules scope = some rule)
    (hwf : (machine limiter).WellFormed mid) {i : ℕ} {choice : Choice}
    (hop : mid.ops[i]? = some (.allow scope key))
    (hact : (machine limiter).act mid (.advance i choice) = some next) :
    ∃ answer, exec mid.store.buckets mid.store.clock
        (.fixedWindow (bucketKey scope key) rule.windowMillis) choice =
          some (answer, next.store.buckets) ∧
      next.store.clock = mid.store.clock ∧
      next.Returned i (.allow scope key) (decision rule answer) ∧
      next.trace i = [⟨.fixedWindow (bucketKey scope key) rule.windowMillis, answer⟩] := by
  have hnext := hwf.act hact
  obtain ⟨request, rest, answer, store, hproc, hexec, rfl⟩ := Machine.advance_cases hact
  obtain ⟨op, hfound, hreach⟩ := hwf.reaches_waiting hproc
  rw [hop] at hfound
  cases hfound
  obtain ⟨htrace, -⟩ := allow_call hreach
  have hlt : i < mid.procs.length := (List.getElem?_eq_some_iff.mp hproc).1
  have hrest : (mid.answer i (rest answer) ⟨request, answer⟩ store).procs[i]? =
      some (rest answer) := by
    rw [Config.answer, List.getElem?_set_self hlt]
  have hanswered := (hnext.follows i _ _ hop hrest).reaches
  rw [Config.trace_answer_self, htrace, List.nil_append] at hanswered
  obtain ⟨values, hentry, hpoint⟩ := allow_answered hrule hanswered
  cases hentry
  obtain ⟨hclock, hexec⟩ := machine_exec hexec
  refine ⟨values, hexec, hclock, ⟨hop, ?_⟩, ?_⟩
  · rw [hrest]
    cases hproc : rest values with
    | ret result =>
        rw [hproc] at hpoint
        cases hpoint
        rfl
    | call _ _ =>
        rw [hproc] at hpoint
        cases hpoint
  · rw [Config.trace_answer_self, htrace, List.nil_append]

/-- A call that has not returned waits for its script, which Redis can answer. -/
theorem exists_advance (hwf : (machine limiter).WellFormed mid) {i : ℕ}
    (hop : mid.ops[i]? = some (.allow scope key)) (hwaiting : mid.result? i = none) :
    ∃ next, (machine limiter).act mid (.advance i .ok) = some next := by
  have hlt : i < mid.procs.length := hwf.length_procs ▸ (List.getElem?_eq_some_iff.mp hop).1
  have hproc : mid.procs[i]? = some mid.procs[i] := List.getElem?_eq_getElem hlt
  cases hfound : mid.procs[i] with
  | ret result =>
      rw [Config.result?, hproc, hfound] at hwaiting
      cases hwaiting
  | call request rest =>
      obtain ⟨bucket, window⟩ := request
      rw [hfound] at hproc
      exact ⟨_, by simp only [Machine.act, hproc]; rfl⟩

theorem Buckets.hits_record (buckets : Buckets) (now : ℤ) (bucket : Bytes) (after : Counter) :
    (buckets.record now bucket after).hits bucket = ⟨now, after⟩ :: buckets.hits bucket :=
  Function.update_self ..

/-- What an undisturbed script does, short of an overflow of the counter. -/
theorem exec_ok {buckets next : Buckets} {clock window : ℤ} {bucket : Bytes} {after : Counter}
    {answer : Except String (List Value)} (hafter : after = hit window (buckets.counters bucket)
      (millis clock))
    (hexec : exec buckets clock (.fixedWindow bucket window) .ok = some (answer, next)) :
    (2 ^ 63 ≤ after.count ∧ ∃ text, answer = .error text) ∨
      after.count < 2 ^ 63 ∧
        answer = .ok [.int after.count, .int (after.expireAt - millis clock)] ∧
        next = buckets.record (millis clock) bucket after := by
  subst hafter
  obtain ⟨found, hreply, heq⟩ := Option.map_eq_some_iff.mp hexec
  cases heq
  simp only [reply, fixedWindowScript, Option.some.injEq] at hreply
  simp only [Choice.executes, if_true, effect, fixedWindowScript]
  split_ifs at hreply ⊢ with hoverflow
  · exact .inl ⟨hoverflow, _, hreply.symm⟩
  · exact .inr ⟨not_le.mp hoverflow, hreply.symm, rfl⟩

/-- A hit leaves time exactly outside the boundary milliseconds. -/
theorem lt_expireAt_hit_iff {buckets : Buckets} {window now : ℤ} {bucket : Bytes}
    (htracked : Tracked window buckets now bucket) (hwindow : 1 ≤ window) :
    now < (hit window (buckets.counters bucket) now).expireAt ↔
      ∀ found ∈ buckets.hits bucket, found.after.expireAt ≠ now := by
  have hhistory := History.cons htracked.history htracked.past
  have hbounds := hhistory.bounds (by omega) List.mem_cons_self
  constructor
  · intro hbefore found hfound heq
    rcases (List.rel_of_pairwise_cons (hhistory.pairwise (by omega)) hfound).2 with
      ⟨hsame, -⟩ | hless
    · exact hbefore.ne (heq.symm.trans hsame.symm)
    · dsimp only at hbounds hless
      omega
  · intro hboundary
    rcases hit_cases window (buckets.counters bucket) now with
      ⟨current, hcurrent, halive, heq⟩ | ⟨-, heq⟩
    · have hhistory := htracked.history
      rw [hcurrent] at hhistory
      obtain ⟨time, rest, hhits⟩ := hhistory.newest
      have hne : current.expireAt ≠ now := hboundary ⟨time, current⟩ (by simp [hhits])
      rw [heq]
      exact lt_of_le_of_ne halive hne.symm
    · rw [heq]
      exact Int.lt_add_of_pos_right now (by omega)

theorem decision_of_left {count ttl : ℤ} (hcount : 1 ≤ count) (hlimit : count ≤ rule.limit) :
    decision rule (.ok [.int count, .int ttl]) =
      if 0 < ttl then ⟨true, 0⟩ else failClosedDecision := by
  split_ifs with hpositive
  · have hparse : parseWindowResult [.int count, .int ttl] = some (count, ttl) :=
      (parseWindowResult_eq_some _ _ _).mpr ⟨rfl, hcount, hpositive⟩
    simp only [decision, hparse, if_neg (not_lt.mpr hlimit)]
  · have hparse : parseWindowResult [.int count, .int ttl] = none := by
      rw [Option.eq_none_iff_forall_ne_some]
      rintro ⟨_, _⟩ hsome
      obtain ⟨⟨⟩, -, hleft⟩ := (parseWindowResult_eq_some _ _ _).mp hsome
      exact hpositive hleft
    simp only [decision, hparse]

theorem one_le_windowMillis (hwindow : millisecond ≤ rule.window) : 1 ≤ rule.windowMillis := by
  have hpos : 0 < millisecond := by decide
  rw [Rule.windowMillis, Int.tdiv_eq_ediv_of_nonneg (by omega)]
  exact (Int.le_ediv_iff_mul_le hpos).mpr (by omega)

section

variable {clock : ℤ} {i : ℕ} (hrule : limiter.rules scope = some rule)
  (hlimit : rule.limit < 2 ^ 63) (hwindow : millisecond ≤ rule.window)
  (hrun : (machine limiter).Run anyStep (start clock) mid)
  (hop : mid.ops[i]? = some (.allow scope key)) (hwaiting : mid.result? i = none)
  (hposition : mid.store.position (bucketKey scope key) ≤ rule.limit)

include hrule hlimit hwindow hrun hop hwaiting hposition

omit hwindow in
/-- A call at a place within the limit passes if its hit leaves time. -/
theorem returned_of_position :
    ∃ next, (machine limiter).act mid (.advance i .ok) = some next ∧
      next.Returned i (.allow scope key)
        (if millis mid.store.clock < (hit rule.windowMillis
            (mid.store.buckets.counters (bucketKey scope key)) (millis mid.store.clock)).expireAt
          then ⟨true, 0⟩ else failClosedDecision) := by
  have hwf := hrun.wellFormed .initial
  obtain ⟨next, hact⟩ := exists_advance hwf hop hwaiting
  refine ⟨next, hact, ?_⟩
  have htracked := tracked_of_run hrule key hrun
  have hcount : (hit rule.windowMillis (mid.store.buckets.counters (bucketKey scope key))
      (millis mid.store.clock)).count = mid.store.position (bucketKey scope key) :=
    htracked.history.count_hit htracked.past
  obtain ⟨answer, hexec, -, hreturned, -⟩ :=
    advance_allow hrule hwf hop hact
  rcases exec_ok rfl hexec with ⟨hoverflow, -⟩ | ⟨-, rfl, -⟩
  · omega
  rw [hcount, decision_of_left (by simp [Store.position]) hposition] at hreturned
  simpa only [Int.sub_pos] using hreturned

theorem allowed_of_position (hboundary : ¬ mid.store.AtBoundary (bucketKey scope key)) :
    ∃ next, (machine limiter).act mid (.advance i .ok) = some next ∧
      next.Returned i (.allow scope key) ⟨true, 0⟩ := by
  have hbefore := (lt_expireAt_hit_iff (tracked_of_run hrule key hrun)
    (one_le_windowMillis hwindow)).mpr fun found hfound heq => hboundary ⟨found, hfound, heq⟩
  simpa only [if_pos hbefore] using
    returned_of_position hrule hlimit hrun hop hwaiting hposition

/-- With Redis answering, a call whose place in the lifetime of its bucket is
within the limit is allowed, whatever came before and whenever it comes, except
in the millisecond in which a lifetime of the bucket ends: then it is always
refused.  A Go `int` is less than `2 ^ 63`. -/
theorem allowed_within_limit :
    ∃ next, (machine limiter).act mid (.advance i .ok) = some next ∧
      (¬ mid.store.AtBoundary (bucketKey scope key) →
        next.Returned i (.allow scope key) ⟨true, 0⟩) ∧
      (mid.store.AtBoundary (bucketKey scope key) →
        next.Returned i (.allow scope key) failClosedDecision) := by
  obtain ⟨next, hact, hreturned⟩ :=
    returned_of_position hrule hlimit hrun hop hwaiting hposition
  have hiff := lt_expireAt_hit_iff (tracked_of_run hrule key hrun) (one_le_windowMillis hwindow)
  refine ⟨next, hact, fun hboundary => ?_, ?_⟩
  · rwa [if_pos (hiff.mpr fun found hfound heq => hboundary ⟨found, hfound, heq⟩)] at hreturned
  · rintro ⟨found, hfound, heq⟩
    rwa [if_neg fun hbefore => hiff.mp hbefore found hfound heq] at hreturned

end

namespace Sample

/-- Two calls a second. -/
def double : Limiter := ⟨fun _ => some ⟨2, second⟩, true⟩

/-- Two calls, the second of them after a time. -/
def twoCalls (elapsed : ℕ) : List Action :=
  [.invoke (.allow .unlockIP Sample.key), .advance 0 .ok, .env elapsed,
    .invoke (.allow .unlockIP Sample.key)]

end Sample

/-- The second of two calls in a window that allows two passes a millisecond
before its end. -/
theorem allowed_within_limit_sample :
    ∃ mid next, (machine Sample.double).Run anyStep (start 0) mid ∧
      mid.store.position (bucketKey .unlockIP Sample.key) = 2 ∧
      (machine Sample.double).act mid (.advance 1 .ok) = some next ∧
      next.Returned 1 (.allow .unlockIP Sample.key) ⟨true, 0⟩ := by
  have hperform : ((machine Sample.double).perform (fun _ _ => true) (start 0)
      (Sample.twoCalls 999000000)).any (fun mid =>
        mid.ops = List.replicate 2 (.allow .unlockIP Sample.key) &&
        mid.store.position (bucketKey .unlockIP Sample.key) = 2 &&
        mid.result? 1 = none &&
        (mid.store.buckets.hits (bucketKey .unlockIP Sample.key)).all fun found =>
          found.after.expireAt ≠ millis mid.store.clock) = true := by decide +kernel
  obtain ⟨mid, hmid, hobserved⟩ := Machine.exists_any_run hperform
  simp only [Bool.and_eq_true, decide_eq_true_eq, List.all_eq_true] at hobserved
  obtain ⟨⟨⟨hops, hposition⟩, hwaiting⟩, hboundary⟩ := hobserved
  have hop : mid.ops[1]? = some (.allow .unlockIP Sample.key) := by rw [hops]; rfl
  have hrule : Sample.double.rules .unlockIP = some ⟨2, second⟩ := rfl
  obtain ⟨next, hact, hreturned, -⟩ := allowed_within_limit hrule (by decide) (by decide) hmid hop
    hwaiting (by rw [hposition]; decide)
  exact ⟨mid, next, hmid, hposition, hact, hreturned fun ⟨found, hfound, heq⟩ =>
    hboundary found hfound heq⟩

/-- The second of two calls in a window that allows two is denied in the
millisecond in which the window ends, by a reply with no time left. -/
theorem denied_at_boundary :
    ∃ mid next, (machine Sample.double).Run anyStep (start 0) mid ∧
      mid.store.position (bucketKey .unlockIP Sample.key) = 2 ∧
      (machine Sample.double).act mid (.advance 1 .ok) = some next ∧
      next.Returned 1 (.allow .unlockIP Sample.key) failClosedDecision := by
  have hperform : ((machine Sample.double).perform (fun _ _ => true) (start 0)
      (Sample.twoCalls 1000000000)).any (fun mid =>
        mid.store.position (bucketKey .unlockIP Sample.key) = 2 &&
        ((machine Sample.double).act mid (.advance 1 .ok)).any fun next =>
          next.ops[1]? = some (.allow .unlockIP Sample.key) &&
          next.result? 1 = some failClosedDecision) = true := by decide +kernel
  obtain ⟨mid, hmid, hobserved⟩ := Machine.exists_any_run hperform
  simp only [Bool.and_eq_true, decide_eq_true_eq, Option.any_eq_true] at hobserved
  obtain ⟨hposition, next, hact, hop, hresult⟩ := hobserved
  exact ⟨mid, next, hmid, hposition, hact, (next.returned_iff 1 _ _).mpr ⟨hop, hresult⟩⟩

end SecurePastebin.Ratelimit
