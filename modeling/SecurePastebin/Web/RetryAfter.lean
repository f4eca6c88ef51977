import SecurePastebin.Ratelimit.Admission
import SecurePastebin.Web.Machine

/-!
# Retry-After

A refusal of the rate limiter announces when to come again in whole seconds,
rounded down and at least one, while the window is counted in milliseconds.
-/

namespace SecurePastebin.Web

open Text Calendar Process
open Interleaving FixedWindow
open Ratelimit (Rule Scope Value bucketKey decision)

/-! ## The refusal -/

/-- The refusal of a request that is to come again after `secs` seconds. -/
def tooManyRequests (secs : ℤ) : Response :=
  { writeError 429 "rate_limited" (ascii "too many requests")
      [("retry_after_seconds", jsonInt secs)] with retryAfter := some secs }

/-- What is recorded of a denial. -/
def denial (info : Option SessionInfo) (scope : Scope) (time : ℤ) : Auth.Event :=
  ⟨time, .rateLimited, (principalFrom info).map (·.userId), .denied, [("scope", .text scope.text)]⟩

/-- What a rate limit does with a denial. -/
def refuse (info : Option SessionInfo) (scope : Scope) (secs : ℤ) : Port (Option Response) := do
  let time ← Port.now
  Port.auditRecord (denial info scope time)
  return some (tooManyRequests secs)

variable {srv : Server} {info : Option SessionInfo} {scope : Scope} {rule : Rule} {key : Bytes}

/-- Under a rule that limits, a rate limit is one script call, and a refusal of
what it denies. -/
theorem limit_eq_call (hrule : srv.limiter.rules scope = some rule)
    (hconnected : srv.limiter.connected = true) (hlimit : 0 < rule.limit)
    (hwindow : 1 ≤ rule.windowMillis) :
    limit srv info scope key =
      .call (.limit (.fixedWindow (bucketKey scope key) rule.windowMillis)) fun answer =>
        if (decision rule answer).allowed then .ret none
        else refuse info scope (max 1 ((decision rule answer).retryAfter.tdiv second)) := by
  rw [limit, Ratelimit.allow_eq_call hrule hconnected hlimit hwindow]
  rfl

/-- A rate limit whose script is answered by a denial ends in the refusal. -/
theorem limit_refuses (hrule : srv.limiter.rules scope = some rule)
    (hconnected : srv.limiter.connected = true) (hlimit : 0 < rule.limit)
    (hwindow : 1 ≤ rule.windowMillis) {answer : Except String (List Value)} {secs : ℤ}
    (hdenied : (decision rule answer).allowed = false ∧
      max 1 ((decision rule answer).retryAfter.tdiv second) = secs) :
    (∃ trace, (limit srv info scope key).Reaches
        (⟨.limit (.fixedWindow (bucketKey scope key) rule.windowMillis), answer⟩ :: trace)
        (.inr (some (tooManyRequests secs)))) ∧
      ∀ trace outcome, (limit srv info scope key).Reaches
        (⟨.limit (.fixedWindow (bucketKey scope key) rule.windowMillis), answer⟩ :: trace)
        (.inr outcome) → outcome = some (tooManyRequests secs) := by
  rw [limit_eq_call hrule hconnected hlimit hwindow]
  obtain ⟨hrefused, rfl⟩ := hdenied
  constructor
  · refine ⟨[⟨.auth .now, 0⟩, ⟨.auth (.auditRecord (denial info scope 0)), ()⟩],
      .inr ⟨answer, _, rfl, ?_⟩⟩
    dsimp only
    rw [hrefused]
    exact .inr ⟨0, _, rfl, .inr ⟨(), _, rfl, rfl, rfl⟩⟩
  · rintro trace outcome (⟨hnil, -⟩ | ⟨found, tail, htrace, hreach⟩)
    · cases hnil
    cases htrace
    dsimp only at hreach
    rw [hrefused] at hreach
    simp only [Bool.false_eq_true, if_false, refuse, Proc.perform_bind,
      Proc.reaches_call_result] at hreach
    obtain ⟨time, tail, -, done, rest, -, -, hpoint⟩ := hreach
    exact Sum.inr.inj hpoint

/-! ## The announced time -/

/-- The seconds announced when `d` milliseconds are left. -/
def announced (d : ℤ) : ℤ := max 1 (d / 1000)

/-- The announced time reaches to the end of the window if and only if at most a
second or a number of whole seconds is left. -/
theorem le_announced_iff {d : ℤ} (hpos : 0 < d) :
    d ≤ announced d * 1000 ↔ d ≤ 1000 ∨ 1000 ∣ d := by
  unfold announced
  omega

/-- The duration of a denial is that of the window left, and does not wrap
around. -/
theorem announced_of_denied (rule : Rule) (count d : ℤ) (hcount : 1 ≤ count)
    (hdenied : rule.limit < count) (hpos : 0 < d) (hle : d ≤ rule.windowMillis)
    (hwindow : millisecond ≤ rule.window) (hrange : rule.window < 2 ^ 63) :
    (decision rule (.ok [.int count, .int d])).allowed = false ∧
      max 1 ((decision rule (.ok [.int count, .int d])).retryAfter.tdiv second) = announced d := by
  have hparse : Ratelimit.parseWindowResult [.int count, .int d] = some (count, d) :=
    (Ratelimit.parseWindowResult_eq_some _ _ _).mpr ⟨rfl, hcount, hpos⟩
  have hnonneg : 0 ≤ rule.window := le_trans (by decide) hwindow
  have hmillis : d * millisecond ≤ rule.window := by
    rw [Rule.windowMillis, Int.tdiv_eq_ediv_of_nonneg hnonneg] at hle
    simp only [millisecond] at hle ⊢
    omega
  have hexact : (d * millisecond).bmod (2 ^ 64) = d * millisecond := by
    apply Int.bmod_eq_of_le <;> simp only [millisecond] at hmillis ⊢ <;> omega
  simp only [decision, hparse, if_pos hdenied, hexact, true_and, announced]
  congr 1
  rw [Int.tdiv_eq_ediv_of_nonneg (by simp only [millisecond]; omega)]
  simp only [millisecond, second]
  omega

/-! ## Coming again -/

/-- The window left at an answered call, and what its bucket has seen by then. -/
theorem answered_window {s next : Ratelimit.Config} {i : ℕ} {clock count d : ℤ}
    (hrule : srv.limiter.rules scope = some rule) (hwindow : 1 ≤ rule.windowMillis)
    (hrun : (Ratelimit.machine srv.limiter).Run anyStep (Ratelimit.start clock) s)
    (hop : s.ops[i]? = some (.allow scope key))
    (hact : (Ratelimit.machine srv.limiter).act s (.advance i .ok) = some next)
    (hanswer : next.Did i (.fixedWindow (bucketKey scope key) rule.windowMillis)
      (.ok [.int count, .int d])) :
    1 ≤ count ∧ d ≤ rule.windowMillis ∧ next.store.clock = s.store.clock ∧
      ∀ found ∈ next.store.buckets.hits (bucketKey scope key),
        found.after.expireAt ≤ millis s.store.clock + d := by
  have htracked := Ratelimit.tracked_of_run hrule key hrun
  obtain ⟨answer, hexec, hclock, -, htrace⟩ := Ratelimit.advance_allow hrule
    (hrun.wellFormed .initial) hop hact
  rw [Config.did_iff_mem_trace, htrace, List.mem_singleton] at hanswer
  cases hanswer
  rcases Ratelimit.exec_ok rfl hexec with ⟨-, text, ⟨⟩⟩ | ⟨-, hvalues, hnext⟩
  simp only [Except.ok.injEq, List.cons.injEq, Value.int.injEq, and_true] at hvalues
  obtain ⟨rfl, rfl⟩ := hvalues
  have hhistory := History.cons htracked.history htracked.past
  have hbounds := hhistory.bounds (by omega) List.mem_cons_self
  have hpairwise := hhistory.pairwise (by omega)
  dsimp only at hbounds
  refine ⟨by omega, by omega, hclock, ?_⟩
  intro found hfound
  rw [hnext, Ratelimit.Buckets.hits_record] at hfound
  rcases List.mem_cons.mp hfound with rfl | hearlier
  · dsimp only
    omega
  · -- the lifetimes before the newest hit's are over earlier
    have hfollows := List.rel_of_pairwise_cons hpairwise hearlier
    rcases hfollows.2 with ⟨hsame, -⟩ | hless
    · dsimp only at hsame
      omega
    · dsimp only at hless
      omega

/-- A denial with `d` milliseconds left of the window: the refusal announces at least
that time, in its header and in its details, exactly if it is at most a second or a
number of whole seconds.  If it does, a call on the bucket that comes so much later,
with no other in between, is allowed, unless it comes in the millisecond in which the
window ends. -/
theorem retry_after_long_enough (srv : Server) (info : Option SessionInfo) (scope : Scope)
    (rule : Rule) (hrule : srv.limiter.rules scope = some rule)
    (hconnected : srv.limiter.connected = true) (hpositive : 0 < rule.limit)
    (hlimit : rule.limit < 2 ^ 63) (hwindow : millisecond ≤ rule.window)
    (hrange : rule.window < 2 ^ 63) (key : Bytes) (clock : ℤ) (s next : Ratelimit.Config) (i : ℕ)
    (hrun : (Ratelimit.machine srv.limiter).Run anyStep (Ratelimit.start clock) s)
    (hop : s.ops[i]? = some (.allow scope key))
    (hact : (Ratelimit.machine srv.limiter).act s (.advance i .ok) = some next) (count d : ℤ)
    (hanswer : next.Did i (.fixedWindow (bucketKey scope key) rule.windowMillis)
      (.ok [.int count, .int d]))
    (hdenied : rule.limit < count) (hpos : 0 < d) :
    (d ≤ announced d * 1000 ↔ d ≤ 1000 ∨ 1000 ∣ d) ∧
      (∃ trace, (limit srv info scope key).Reaches
        (⟨.limit (.fixedWindow (bucketKey scope key) rule.windowMillis),
          .ok [.int count, .int d]⟩ :: trace) (.inr (some (tooManyRequests (announced d))))) ∧
      (∀ trace outcome, (limit srv info scope key).Reaches
        (⟨.limit (.fixedWindow (bucketKey scope key) rule.windowMillis),
          .ok [.int count, .int d]⟩ :: trace) (.inr outcome) →
            outcome = some (tooManyRequests (announced d))) ∧
      ∀ later j, d ≤ announced d * 1000 → (Ratelimit.machine srv.limiter).Run anyStep next later →
        later.store.buckets.hits (bucketKey scope key) =
          next.store.buckets.hits (bucketKey scope key) →
        s.store.clock + announced d * second ≤ later.store.clock →
        (d = announced d * 1000 → millis later.store.clock ≠ millis s.store.clock + d) →
        later.ops[j]? = some (.allow scope key) → later.result? j = none →
        ∃ last, (Ratelimit.machine srv.limiter).act later (.advance j .ok) = some last ∧
          last.Returned j (.allow scope key) ⟨true, 0⟩ := by
  have hmillis := Ratelimit.one_le_windowMillis hwindow
  obtain ⟨hcount, hle, hclock, hhits⟩ := answered_window hrule hmillis hrun hop hact hanswer
  have hrefused := announced_of_denied rule count d hcount hdenied hpos hle hwindow hrange
  obtain ⟨hexists, hunique⟩ := limit_refuses hrule hconnected hpositive hmillis hrefused
  refine ⟨le_announced_iff hpos, hexists, hunique, ?_⟩
  intro later j hcovers hlater hquiet htime hboundary hopj hwaiting
  have hreached := (hrun.tail trivial hact).trans hlater
  -- by then every lifetime of the bucket is over
  have hover : ∀ found ∈ later.store.buckets.hits (bucketKey scope key),
      found.after.expireAt < millis later.store.clock := by
    intro found hfound
    rw [hquiet] at hfound
    have hend := hhits found hfound
    clear hexists hunique hrefused
    simp only [millis, millisecond, second] at hend htime hboundary ⊢
    omega
  have hposition : later.store.position (bucketKey scope key) = 1 := by
    rw [Ratelimit.Store.position, List.filter_eq_nil_iff.mpr, List.length_nil]
    intro found hfound
    simpa using hover found hfound
  refine Ratelimit.allowed_of_position hrule hlimit hwindow hreached hopj hwaiting (by omega) ?_
  rintro ⟨found, hfound, heq⟩
  exact (hover found hfound).ne heq

namespace Sample

/-- One call in two seconds. -/
def oneInTwo : Server := { server with limiter := ⟨fun _ => some ⟨1, 2 * second⟩, true⟩ }

abbrev limiterRuns := Ratelimit.machine oneInTwo.limiter

def login : Ratelimit.Op := .allow .login user.username

def bucket : Bytes := bucketKey .login user.username

/-- The second call comes after a time and leaves `d` milliseconds of the window,
the third comes a second after it. -/
def observes (elapsed : ℕ) (d : ℤ) (result : Ratelimit.Decision) : Bool :=
  (limiterRuns.perform (fun _ _ => true) (Ratelimit.start 0)
      [.invoke login, .advance 0 .ok, .env elapsed, .invoke login]).any fun s =>
    s.ops[1]? = some login &&
    (limiterRuns.act s (.advance 1 .ok)).any fun next =>
      (1, ⟨.fixedWindow bucket 2000, .ok [.int 2, .int d]⟩) ∈ next.log &&
      (limiterRuns.perform (fun _ _ => true) next [.env 1000000000, .invoke login]).any fun later =>
        later.store.buckets.hits bucket = next.store.buckets.hits bucket &&
        later.store.clock = s.store.clock + second &&
        later.ops[2]? = some login && later.result? 2 = none &&
        (limiterRuns.act later (.advance 2 .ok)).any fun last =>
          last.ops[2]? = some login && last.result? 2 = some result

/-- The state before the second call, after it, before the third and after it. -/
structure Observed (d : ℤ) (result : Ratelimit.Decision) (s next later last : Ratelimit.Config) :
    Prop where
  run : limiterRuns.Run anyStep (Ratelimit.start 0) s
  op : s.ops[1]? = some login
  act : limiterRuns.act s (.advance 1 .ok) = some next
  did : next.Did 1 (.fixedWindow bucket 2000) (.ok [.int 2, .int d])
  wait : limiterRuns.Run anyStep next later
  quiet : later.store.buckets.hits bucket = next.store.buckets.hits bucket
  time : later.store.clock = s.store.clock + second
  again : later.ops[2]? = some login
  waiting : later.result? 2 = none
  third : limiterRuns.act later (.advance 2 .ok) = some last
  returned : last.Returned 2 login result

theorem exists_observed {elapsed : ℕ} {d : ℤ} {result : Ratelimit.Decision}
    (hobserves : observes elapsed d result = true) :
    ∃ s next later last, Observed d result s next later last := by
  obtain ⟨s, hs, hobserved⟩ := Machine.exists_run_of_perform
    (fun (_ : Ratelimit.Config) (_ : Ratelimit.Action) _ => trivial) hobserves
  rw [Bool.and_eq_true, decide_eq_true_eq, Option.any_eq_true] at hobserved
  obtain ⟨hop, next, hact, hobserved⟩ := hobserved
  rw [Bool.and_eq_true, decide_eq_true_eq] at hobserved
  obtain ⟨later, hwait, hlater⟩ := Machine.exists_run_of_perform
    (fun (_ : Ratelimit.Config) (_ : Ratelimit.Action) _ => trivial) hobserved.2
  simp only [Bool.and_eq_true, decide_eq_true_eq, Option.any_eq_true] at hlater
  obtain ⟨⟨⟨⟨hquiet, htime⟩, hagain⟩, hwaiting⟩, last, hthird, hops, hresult⟩ := hlater
  exact ⟨s, next, later, last, hs, hop, hact, hobserved.1, hwait, hquiet, htime, hagain, hwaiting,
    hthird, (last.returned_iff 2 _ _).mpr ⟨hops, hresult⟩⟩

end Sample

/-- Half a second is left of the window, a second is announced, and the call that
comes a second later is allowed. -/
theorem retry_after_long_enough_sample :
    ∃ later last, Sample.limiterRuns.act later (.advance 2 .ok) = some last ∧
      last.Returned 2 Sample.login ⟨true, 0⟩ := by
  have hobserves : Sample.observes 1500000000 500 ⟨true, 0⟩ = true := by decide +kernel
  obtain ⟨s, next, later, last, hseen⟩ := Sample.exists_observed hobserves
  have hretry := retry_after_long_enough Sample.oneInTwo none .login ⟨1, 2 * second⟩ rfl rfl
    (by decide) (by decide) (by decide) (by decide) Sample.user.username 0 s next 1 hseen.run
    hseen.op hseen.act 2 500 hseen.did (by decide) (by decide)
  obtain ⟨-, -, -, hallowed⟩ := hretry
  exact ⟨later, hallowed later 2 (by decide) hseen.wait hseen.quiet hseen.time.ge
    (fun heq => absurd heq (by decide)) hseen.again hseen.waiting⟩

/-- A second and a half is left of the window, a second is announced, and the
call that comes a second later is denied by the same window. -/
theorem retry_after_too_short :
    ∃ s next later last, Sample.Observed 1500 ⟨false, 500 * millisecond⟩ s next later last ∧
      ∃ trace, (limit Sample.oneInTwo none .login Sample.user.username).Reaches
        (⟨.limit (.fixedWindow Sample.bucket 2000), .ok [.int 2, .int 1500]⟩ :: trace)
        (.inr (some (tooManyRequests 1))) := by
  have hobserves : Sample.observes 500000000 1500 ⟨false, 500 * millisecond⟩ = true := by
    decide +kernel
  obtain ⟨s, next, later, last, hseen⟩ := Sample.exists_observed hobserves
  refine ⟨s, next, later, last, hseen, ?_⟩
  have hrefused := announced_of_denied ⟨1, 2 * second⟩ 2 1500 (by decide) (by decide) (by decide)
    (by decide) (by decide) (by decide)
  exact (limit_refuses rfl rfl (by decide) (by decide) hrefused).1

end SecurePastebin.Web
