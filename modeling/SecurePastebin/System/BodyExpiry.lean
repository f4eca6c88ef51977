import SecurePastebin.System.Clock
import SecurePastebin.System.Provenance

/-!
# When a body expires

`Create` computes the remaining life time of a body, and Redis counts it from
the moment it executes the write.  What passes in between delays the expiry, and
only the part of a millisecond that is cut off makes up for it.
-/

namespace SecurePastebin.System

open Text Uuid Calendar Paste
open Crypto SecurePastebin.Store Process Interleaving

variable {sys : Params} {s next : Config} {i : ℕ} {id : UUID} {clock : ℤ} {E : Envelope}
  {c : Creation} {allowed : Config → Action → Prop}

/-- The delay since the last look at the clock is made up for by the
sub-millisecond part of the life time, which is at least a millisecond. -/
def isTimely (now : ℤ) (trace : List Step) (ttl : ℤ) : Bool :=
  match (repliesTo .now trace).getLast? with
  | some later => millisecond ≤ ttl && now - later ≤ ttl % millisecond
  | none => false

/-- Every write of a body is timely. -/
def isTimelyPut (s : Config) : Action → Bool
  | .advance i _ =>
      match s.pending? i with
      | some (.bodiesPut _ _ ttl) => isTimely s.store.clock (s.trace i) ttl
      | _ => true
  | _ => true

theorem isTimely_sealedTrace (now ttl : ℤ) :
    isTimely now (c.sealedTrace sys) ttl = true ↔
      millisecond ≤ ttl ∧ now - c.attempt.later ≤ ttl % millisecond := by
  have hlast : (repliesTo .now (c.sealedTrace sys)).getLast? = some c.attempt.later := by
    simp [Creation.sealedTrace, Attempt.sealedTrace, Attempt.drawing, Attempt.sealing]
  simp [isTimely, hlast]

/-- Written at `now`, a life time of `ttl` that was computed at `later` ends in
time exactly when the write is timely. -/
theorem redisTTL_le_iff {now later ttl : ℤ} (hlater : later ≤ now) (hpositive : 0 < ttl) :
    now + Bodies.redisTTL ttl ≤ later + ttl ↔
      millisecond ≤ ttl ∧ now - later ≤ ttl % millisecond := by
  have hms : millisecond = 1000000 := rfl
  simp only [Bodies.redisTTL, truncate, hms]
  omega

/-- With readings in order the remaining life time is not cut off. -/
theorem Creation.later_add_remaining (hremaining : 0 < c.remaining sys)
    (hordered : c.attempt.created ≤ c.attempt.later) :
    c.attempt.later + c.remaining sys = (c.info sys).expiresAt := by
  have hexpires := c.info_expiresAt sys
  have hcreated : (c.info sys).createdAt = c.attempt.created := c.info_createdAt sys
  have hwrap : wrap64 ((c.info sys).ttlSeconds * second) < 2 ^ 63 := by
    simp only [wrap64]
    omega
  have hsub : c.remaining sys = sub (c.info sys).expiresAt c.attempt.later := rfl
  simp only [sub] at hsub
  omega

/-- The readings of a `Create` before its put are in order. -/
theorem sealedTrace_ordered (hforward : ∀ s action, allowed s action → ClockForward s action)
    (hrun : (machine sys).Run allowed (.initial (.empty clock E)) s)
    (htrace : s.trace i = c.sealedTrace sys) :
    c.attempt.created ≤ c.attempt.later ∧ c.attempt.later ≤ s.store.clock := by
  constructor
  · have hsorted := clockReadings_sorted hforward hrun i
    rw [htrace] at hsorted
    simpa [Creation.sealedTrace, Attempt.sealedTrace, Attempt.drawing, Attempt.sealing] using hsorted
  · refine now_le_clock hforward hrun (i := i) ?_
    rw [Config.did_iff_mem_trace, htrace]
    simp [Creation.sealedTrace, Attempt.sealedTrace]

section

variable {op : Op} {record : EncryptedBody} {ttl : ℤ} {store : Store} {choice : Choice}

/-- A body ends in time exactly when its write was timely. -/
theorem put_expiry_iff (hforward : ∀ s action, allowed s action → ClockForward s action)
    (hrun : (machine sys).Run allowed (.initial (.empty clock E)) s)
    (hop : s.ops[i]? = some op) (proc : Port Result)
    (hreach : (program sys op).Reaches (s.trace i) (.inl (.bodiesPut id record ttl)))
    (hexec : exec sys.prims s.store (.bodiesPut id record ttl) choice = some (.ok (), store)) :
    ∃ c entry, Stored sys (s.answer i proc ⟨.bodiesPut id record ttl, .ok ()⟩ store) i c ∧
      c.id = id ∧ store.redis (Bodies.bodyKey id) = some entry ∧
      (entry.expireAt ≤ (c.info sys).expiresAt ↔
        isTimely s.store.clock (s.trace i) ttl = true) := by
  obtain ⟨c, hstored, hid, -, rfl, htrace⟩ := stored_answer_put proc store hop hreach
  refine ⟨c, _, hstored, hid, (exec_redis hexec).put_body, ?_⟩
  obtain ⟨hordered, hlater⟩ := sealedTrace_ordered hforward hrun htrace
  rw [← Creation.later_add_remaining hstored.remaining hordered, htrace, isTimely_sealedTrace]
  exact redisTTL_le_iff hlater hstored.remaining

end

/-- Every body ends no later than its paste. -/
def BodiesEnd (sys : Params) (s : Config) : Prop :=
  ∀ id entry, s.store.redis (Bodies.bodyKey id) = some entry →
    ∃ i c, Stored sys s i c ∧ c.id = id ∧ entry.expireAt ≤ (c.info sys).expiresAt

theorem BodiesEnd.of_store (hends : BodiesEnd sys s) (hextends : s.Extends next)
    (hredis : next.store.redis = s.store.redis) : BodiesEnd sys next := by
  intro id entry hentry
  rw [hredis] at hentry
  obtain ⟨i, c, hstored, hid, hle⟩ := hends id entry hentry
  exact ⟨i, c, hstored.mono hextends, hid, hle⟩

theorem bodiesEnd_of_run (hforward : ∀ s action, allowed s action → ClockForward s action)
    (htimely : ∀ s action, allowed s action → isTimelyPut s action = true)
    (hrun : (machine sys).Run allowed (.initial (.empty clock E)) s) :
    BodiesEnd sys s := by
  refine hrun.induct .initial ?_ ?_ ?_ ?_
  · intro id entry hentry
    simp [Config.initial, Store.empty] at hentry
  · intro s change store _ hends _ henv
    cases change <;> cases henv <;> exact hends.of_store (Config.extends_store _) rfl
  · intro s op _ hends _
    exact hends.of_store (Config.extends_invoke op _) rfl
  · intro s i op choice request reply store proc hpast hends hallowed hop hpending hreach hexec
      id entry hentry
    rcases (exec_redis hexec).body hentry with ⟨record, ttl, hstep, -⟩ | ⟨hold, -⟩
    · cases hstep
      obtain ⟨c, entry', hstored, hid, hentry', hiff⟩ :=
        put_expiry_iff hforward hpast hop proc hreach hexec
      cases hentry.symm.trans hentry'
      refine ⟨i, c, hstored, hid, hiff.mpr ?_⟩
      have hput := htimely s _ hallowed
      simpa only [isTimelyPut, hpending] using hput
    · obtain ⟨j, c, hstored, hid, hle⟩ := hends id entry hold
      exact ⟨j, c, hstored.mono (Config.extends_answer _ _ _ _), hid, hle⟩

/-- With a clock that does not run backwards: the body a `Create` stores ends no
later than its paste exactly when the write was timely; so in every run all of
whose writes are timely, no body outlives its paste. -/
theorem bodies_end_with_paste (sys : Params) (clock : ℤ) (E : Envelope) :
    (∀ s i choice next id record ttl,
      (machine sys).Run ClockForward (.initial (.empty clock E)) s →
      s.pending? i = some (.bodiesPut id record ttl) →
      (machine sys).act s (.advance i choice) = some next →
      next.Did i (.bodiesPut id record ttl) (.ok ()) →
      ∃ c entry, Stored sys next i c ∧ c.id = id ∧
        next.store.redis (Bodies.bodyKey id) = some entry ∧
        (entry.expireAt ≤ (c.info sys).expiresAt ↔
          isTimely s.store.clock (s.trace i) ttl = true)) ∧
    ∀ s, (machine sys).Run (fun s action => ClockForward s action ∧ isTimelyPut s action = true)
        (.initial (.empty clock E)) s →
      ∀ id entry, s.store.redis (Bodies.bodyKey id) = some entry →
        ∃ i c, Stored sys s i c ∧ c.id = id ∧ entry.expireAt ≤ (c.info sys).expiresAt := by
  constructor
  · intro s i choice next id record ttl hrun hpending hact hdid
    have hwf := hrun.wellFormed .initial
    obtain ⟨request, rest, reply, store, hproc, hexec, rfl⟩ := Machine.advance_cases hact
    obtain rfl : request = .bodiesPut id record ttl := by
      simpa [Config.pending?, hproc] using hpending
    obtain ⟨op, hop, hreach⟩ := hwf.reaches_waiting hproc
    obtain rfl : reply = .ok () := by
      rcases Config.did_answer.mp hdid with hdid | ⟨-, heq⟩
      · -- the thread has not put anything before
        obtain ⟨c, -, -, -, htrace, -⟩ := call_bodiesPut hreach
        rw [Config.did_iff_mem_trace, htrace] at hdid
        simp [Creation.sealedTrace, Attempt.sealedTrace, Attempt.drawing,
          Attempt.sealing] at hdid
      · cases heq
        rfl
    exact put_expiry_iff (fun _ _ h => h) hrun hop _ hreach hexec
  · intro s hrun
    exact bodiesEnd_of_run (fun _ _ h => h.1) (fun _ _ h => h.2) hrun

/-- The sample `Create`, with a delay before its body is written. -/
def Sample.creatingLate (delay : ℤ) : List Action :=
  [.invoke (.create Sample.owner Sample.input)] ++ Sample.calls 0 1 ++
    [.advance 0 (.uuid Sample.id), .advance 0 (.sealing .granted Crypto.Sample.draws)] ++
    Sample.calls 0 1 ++ [.env (.tick delay)] ++ Sample.calls 0 4

/-- A millisecond of delay, and the body is there a millisecond longer than the
paste. -/
theorem body_outlives_paste :
    ∃ s m entry, (machine Sample.params).Run ClockForward Sample.start s ∧
      s.store.pastes.find Sample.id = some m ∧
      s.store.redis (Bodies.bodyKey Sample.id) = some entry ∧
      entry.expireAt = m.expiresAt + millisecond := by
  have hperform : ((machine Sample.params).perform (fun s action => decide (ClockForward s action))
      Sample.start (Sample.creatingLate millisecond)).any (fun s =>
        (s.store.pastes.find Sample.id).any fun m =>
          (s.store.redis (Bodies.bodyKey Sample.id)).any fun entry =>
            entry.expireAt = m.expiresAt + millisecond) = true := by decide +kernel
  obtain ⟨s, hrun, hs⟩ := Machine.exists_decided_run hperform
  simp only [Option.any_eq_true, decide_eq_true_eq] at hs
  obtain ⟨m, hfind, entry, hentry, hexpiry⟩ := hs
  exact ⟨s, m, entry, hrun, hfind, hentry, hexpiry⟩

/-- Without a delay the body of the sample paste ends with it. -/
theorem bodies_end_with_paste_sample :
    ∃ s entry, (machine Sample.params).Run
        (fun s action => ClockForward s action ∧ isTimelyPut s action = true) Sample.start s ∧
      s.store.redis (Bodies.bodyKey Sample.id) = some entry ∧
      ∃ i c, Stored Sample.params s i c ∧ c.id = Sample.id ∧
        entry.expireAt ≤ (c.info Sample.params).expiresAt := by
  have hperform : ((machine Sample.params).perform
      (fun s action => decide (ClockForward s action) && isTimelyPut s action) Sample.start
      Sample.creating).any (fun s => (s.store.redis (Bodies.bodyKey Sample.id)).isSome) = true := by
    decide +kernel
  obtain ⟨s, hrun, hs⟩ := Machine.exists_run_of_perform
    (fun (s : Config) (action : Action)
        (h : (decide (ClockForward s action) && isTimelyPut s action) = true) =>
      (by simpa using h : ClockForward s action ∧ isTimelyPut s action = true)) hperform
  obtain ⟨entry, hentry⟩ := Option.isSome_iff_exists.mp hs
  exact ⟨s, entry, hrun, hentry, (bodies_end_with_paste Sample.params 0 Crypto.Sample.envelope).2 s
    hrun Sample.id entry hentry⟩

end SecurePastebin.System
