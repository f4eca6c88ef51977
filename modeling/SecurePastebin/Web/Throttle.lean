import SecurePastebin.Core.Component
import SecurePastebin.Ratelimit.Window
import SecurePastebin.Web.Grammar
import SecurePastebin.Web.Machine

/-!
# The rate limiter within the application

Every call the handlers make of the rate limiter is one of `Allow`.  A run of
the application, seen from its buckets alone, is therefore a run of the
limiter's own machine, and the bounds of that machine are bounds on the requests
that get past a rate limit.
-/

namespace SecurePastebin.Web

open Text Uuid Calendar Process Interleaving
open FixedWindow
open Ratelimit (Rule Scope Limiter bucketKey decision answeredSince)

/-! ## What is called of the limiter -/

section Calls

variable {srv : Server} {r : Request} {limiter : Limiter} {verifies : Prop}

theorem Metered.weaken {request : Call} (hmetered : Metered limiter verifies request) {wider : Prop}
    (hwider : verifies → wider) : Metered limiter wider request := by
  cases request with
  | limit call => exact hmetered
  | auth call =>
      cases call with
      | hasherVerify phc password => exact hwider hmetered
      | _ => trivial
  | _ => trivial

/-- Passwords are compared by the login alone. -/
theorem serve_metered :
    (serve srv r).CallsOnly (Metered srv.limiter (targetOf r = .api .login)) := by
  refine Proc.CallsOnly.bind (loadSession_calls.mono fun request hcall => ?_) fun info => ?_
  · rcases hcall with ⟨call, rfl⟩ | ⟨id, rfl⟩ <;> trivial
  split
  · trivial
  · refine Proc.callsOnly_of_reaches fun trace request hreach => ?_
    rcases dispatch_calls hreach with hcalls | ⟨endpoint, htarget, hcalls, -⟩
    · exact hcalls.2.weaken nofun
    · refine hcalls.2.weaken ?_
      rintro rfl
      exact htarget

theorem program_metered (app : Params) (op : Op) :
    (program app op).CallsOnly (Metered app.server.limiter True) := by
  cases op with
  | request r =>
      exact (serve_metered.mono fun request hrequest => hrequest.weaken fun _ => trivial).bind
        fun _ => trivial
  | command command =>
      refine Proc.CallsOnly.bind (Proc.callsOnly_lift authCalls
        (Proc.callsOnly_of_reaches fun _ request _ => ?_)) fun _ => trivial
      cases request <;> trivial
  | sweep =>
      exact Proc.CallsOnly.bind (Proc.callsOnly_lift pasteCalls
        (Proc.callsOnly_of_reaches fun _ _ _ => trivial)) fun _ => trivial

end Calls

/-! ## The limiter's own run -/

/-- What the limiter sees of the stores. -/
def Store.limiterStore (store : Store) : Ratelimit.Store := ⟨store.clock, store.buckets⟩

theorem limitCalls_injective : Function.Injective limitCalls.wrap := fun _ _ => Call.limit.inj

/-- Each call of the script is a whole program of the limiter. -/
theorem hosts_of_metered {limiter : Limiter} {Value : Type} {program : Port Value}
    (hcalls : program.CallsOnly (Metered limiter True))
    (done : List (Ratelimit.Op × Ratelimit.Decision)) :
    Hosts limitCalls (Ratelimit.machine limiter).program (fun _ => True) (fun _ _ => True) done
      program := by
  induction program generalizing done with
  | ret value => exact .ret trivial
  | call request next ih =>
      by_cases hlimit : ∃ call, request = .limit call
      · obtain ⟨call, rfl⟩ := hlimit
        obtain ⟨scope, key, result, hallow⟩ := hcalls.1
        have hprogram : (Ratelimit.machine limiter).program (.allow scope key) =
            result <$> Proc.perform call := hallow
        exact Hosts.runs (e := limitCalls) trivial hprogram fun answer =>
          ih answer (hcalls.2 answer) _
      · refine .call (fun sub heq => hlimit ⟨sub, heq⟩) fun reply => ih reply (hcalls.2 reply) _

/-- The limiter is a component of the application. -/
theorem composes_limiter (app : Params) :
    Composes (machine app) (Ratelimit.machine app.server.limiter) limitCalls Store.limiterStore
      anyStep (fun _ _ => True) (fun _ _ => True) (fun _ _ _ => True) where
  program op := hosts_of_metered (program_metered app op) []
  invoke _ _ := trivial
  exec s i sub choice reply after _ hexec := by
    obtain ⟨found, -, hfound, heq⟩ := exec_limit hexec
    refine ⟨found, ?_, fun _ => trivial⟩
    rw [heq]
    exact Option.map_eq_some_iff.mpr ⟨_, hfound, rfl⟩
  other store request choice reply after hother hexec := by
    obtain ⟨hclock, -, -, -, hbuckets⟩ := exec_frame hexec
    rw [Store.limiterStore, Store.limiterStore, hclock, hbuckets hother]
  env s change after _ henv := by
    cases change with
    | elapse time =>
        cases henv
        exact .inr ⟨time, rfl, trivial⟩
    | restart envelope =>
        cases henv
        exact .inl rfl

/-! ## Requests that get past a rate limit -/

/-- The threads the limiter has allowed on a bucket. -/
def admitted (rule : Rule) (bucket : Bytes) (s : Config) : Set ℕ :=
  {i | ∃ answer, s.Did i (.limit (.fixedWindow bucket rule.windowMillis)) answer ∧
    (decision rule answer).allowed = true}

/-- Those that had not yet called it on the bucket in an earlier state. -/
def admittedSince (rule : Rule) (bucket : Bytes) (mid s : Config) : Set ℕ :=
  {i ∈ admitted rule bucket s |
    ∀ window answer, ¬ mid.Did i (.limit (.fixedWindow bucket window)) answer}

section Admission

variable {app : Params} {mid s : Config} {scope : Scope} {rule : Rule} {key bucket : Bytes}

/-- A configuration as the limiter sees it. -/
abbrev LimiterView (app : Params) (s : Config) (t : Ratelimit.Config) (owner : List ℕ) : Prop :=
  Simulates limitCalls (Ratelimit.machine app.server.limiter).program Store.limiterStore
    (fun _ _ => True) (fun _ _ _ => True) s t owner

variable {t u : Ratelimit.Config} {owner owner' : List ℕ}

/-- The only call of a thread of the limiter is its first one. -/
theorem first_of_did (hwf : (Ratelimit.machine app.server.limiter).WellFormed u) {k : ℕ}
    {request : Ratelimit.Call} {answer : request.Reply} (hdid : u.Did k request answer) :
    ∃ back, u.trace k = ⟨request, answer⟩ :: back := by
  obtain ⟨⟨scope, key⟩, front, back, -, htrace, hreach⟩ := hwf.reaches_of_did hdid
  obtain ⟨rfl, -⟩ := Ratelimit.allow_call hreach
  exact ⟨back, htrace⟩

/-- Each of them is a thread of the limiter that has been allowed. -/
theorem admittedSince_le (hmid : LimiterView app mid t owner) (hs : LimiterView app s u owner')
    (howners : owner <+: owner') (hwf : (Ratelimit.machine app.server.limiter).WellFormed u)
    (hextends : t.Extends u) :
    (admittedSince rule bucket mid s).encard ≤ (answeredSince rule bucket t u).encard := by
  have hthread : ∀ i ∈ admittedSince rule bucket mid s,
      ∃ k ∈ answeredSince rule bucket t u, owner'[k]? = some i := by
    rintro i ⟨⟨answer, hdid, hallowed⟩, hnew⟩
    have hwrapped : s.Did i (limitCalls.wrap (.fixedWindow bucket rule.windowMillis)) answer := hdid
    obtain ⟨k, howner, hcall⟩ := hs.called limitCalls_injective hwrapped
    refine ⟨k, ⟨?_, answer, hcall, hallowed⟩, howner⟩
    -- had the thread begun by then, this call would have been made by then
    obtain ⟨back, hfirst⟩ := first_of_did hwf hcall
    cases htrace : t.trace k with
    | nil => rfl
    | cons first rest =>
        have hsame := hextends.trace k
        rw [htrace, hfirst] at hsame
        obtain ⟨rfl, -⟩ := List.cons_prefix_cons.mp hsame
        have hearlier : t.Did k (.fixedWindow bucket rule.windowMillis) answer := by
          rw [Config.did_iff_mem_trace, htrace]
          exact List.mem_cons_self
        obtain ⟨j, howner', hdid'⟩ := hmid.log.did hearlier
        obtain ⟨more, rfl⟩ := howners
        have hk := (List.getElem?_eq_some_iff.mp howner').1
        rw [List.getElem?_append_left hk, howner'] at howner
        cases howner
        exact absurd hdid' (hnew _ _)
  choose! thread hthreads howner using hthread
  refine Set.encard_le_encard_of_injOn hthreads fun i hi j hj hsame => ?_
  have hi' := howner i hi
  rw [hsame, howner j hj] at hi'
  exact (Option.some.inj hi').symm

variable {store : Store}

/-- The limiter's view of a run from stores without buckets. -/
theorem segment_of_run (hempty : store.buckets = .empty)
    (hrule : app.server.limiter.rules scope = some rule) (key : Bytes)
    (hmid : (machine app).Run anyStep (.initial store) mid)
    (hrun : (machine app).Run anyStep mid s) :
    ∃ t u recent, t.store = mid.store.limiterStore ∧ u.store = s.store.limiterStore ∧
      Ratelimit.Segment rule (bucketKey scope key) t u recent ∧
      Ratelimit.Tracked rule.windowMillis t.store.buckets (millis t.store.clock)
        (bucketKey scope key) ∧
      Ratelimit.Tracked rule.windowMillis u.store.buckets (millis u.store.clock)
        (bucketKey scope key) ∧
      (admittedSince rule (bucketKey scope key) mid s).encard ≤
        (answeredSince rule (bucketKey scope key) t u).encard := by
  have hwf : (machine app).WellFormed (.initial store) := .initial
  have hstart : (Ratelimit.machine app.server.limiter).WellFormed (Ratelimit.start store.clock) :=
    .initial
  have hview : LimiterView app (.initial store) (Ratelimit.start store.clock) [] := by
    rw [Ratelimit.start, ← hempty]
    exact simulates_initial store
  obtain ⟨t, owner, hlimiter, -, hmid'⟩ := hview.run (composes_limiter app) hwf hstart hmid
  have hwf' := hlimiter.wellFormed hstart
  obtain ⟨u, owner', hlimiter', howners, hs⟩ :=
    hmid'.run (composes_limiter app) (hmid.wellFormed hwf) hwf' hrun
  obtain ⟨recent, hsegment⟩ := Ratelimit.segment_of_run rule (bucketKey scope key) hwf' hlimiter'
  exact ⟨t, u, recent, hmid'.store, hs.store, hsegment, Ratelimit.tracked_of_run hrule key hlimiter,
    Ratelimit.tracked_of_run hrule key (hlimiter.trans hlimiter'),
    admittedSince_le hmid' hs howners (hlimiter'.wellFormed hwf') hlimiter'.extends⟩

/-- Of some threads, those the limiter has allowed on a bucket between two states
are at most `limit`, if there was no bucket in the first state and its window is
not over in the second; and at most twice as many, if less than the window has
passed. -/
def Capped (rule : Rule) (bucket : Bytes) (mid s : Config) (threads : Set ℕ) : Prop :=
  (mid.store.limiterStore.find bucket = none →
    millis s.store.clock ≤ millis mid.store.clock + rule.windowMillis →
    (threads ∩ admittedSince rule bucket mid s).encard ≤ rule.limit.toNat) ∧
  (s.store.clock - mid.store.clock < rule.windowMillis * Calendar.millisecond →
    (threads ∩ admittedSince rule bucket mid s).encard ≤ 2 * rule.limit.toNat)

theorem capped_of_run (hempty : store.buckets = .empty)
    (hrule : app.server.limiter.rules scope = some rule) (hwindow : 1 ≤ rule.windowMillis)
    (hmid : (machine app).Run anyStep (.initial store) mid)
    (hrun : (machine app).Run anyStep mid s) (threads : Set ℕ) :
    Capped rule (bucketKey scope key) mid s threads := by
  obtain ⟨t, u, recent, ht, hu, hsegment, htracked, htracked', hle⟩ :=
    segment_of_run hempty hrule key hmid hrun
  have hthreads : (threads ∩ admittedSince rule (bucketKey scope key) mid s).encard ≤
      (answeredSince rule (bucketKey scope key) t u).encard :=
    (Set.encard_le_encard Set.inter_subset_right).trans hle
  constructor
  · intro habsent hshort
    refine hthreads.trans
      (hsegment.absent htracked' htracked hwindow (by rw [ht, habsent]) ?_)
    rw [ht, hu]
    exact hshort
  · intro hshort
    refine hthreads.trans (hsegment.interval htracked' hwindow ?_)
    rw [ht, hu]
    exact hshort

/-- What has passed some rate limits was allowed by each of those that limit. -/
theorem allowed_of_passed {srv : Server} {checks : List (Scope × Bytes)} {front : List Step}
    (hpassed : Passed srv checks front) (hcheck : (scope, key) ∈ checks)
    (hrule : srv.limiter.rules scope = some rule) (hlimit : 0 < rule.limit) :
    ∃ answer, ⟨.limit (.fixedWindow (bucketKey scope key) rule.windowMillis), answer⟩ ∈ front ∧
      (decision rule answer).allowed = true := by
  induction checks generalizing front with
  | nil => cases hcheck
  | cons first rest ih =>
      obtain ⟨sub, found, later, rfl, hreach, hallowed, hrest⟩ := hpassed
      rcases List.mem_cons.mp hcheck with rfl | hcheck
      · obtain ⟨answer, rfl, hanswer⟩ := Ratelimit.allow_result hrule hlimit hreach hallowed
        exact ⟨answer, List.mem_append_left _ (List.mem_singleton.mpr rfl), hanswer⟩
      · obtain ⟨answer, hmem, hanswer⟩ := ih hrest hcheck
        exact ⟨answer, List.mem_append_right _ hmem, hanswer⟩

end Admission

end SecurePastebin.Web
