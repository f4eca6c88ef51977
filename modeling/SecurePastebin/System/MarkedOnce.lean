import SecurePastebin.System.Lossy

/-!
# A lost body is reported once

Every `Read` that finds no body before the expiry of its row tries to write a
marker, and only the one that has written it records the event.  The marker
lives for an hour beyond the expiry, counted from a reading of the clock that
may be old by then; if it is not older than 59 minutes, no later `Read` finds
the marker gone.
-/

namespace SecurePastebin.System

open Text Uuid Calendar Paste
open Crypto SecurePastebin.Store Process Interleaving

variable {sys : Params} {start : Store} {s next : Config} {i j k : ℕ} {id : UUID}

/-! ## One thread -/

section Thread

variable {op : Op} {front : List Step}

theorem call_bodiesMarkUnavailableOnce {ttl : ℤ}
    (hreach : (program sys op).Reaches front (.inl (.bodiesMarkUnavailableOnce id ttl))) :
    ∃ p password m now err rechecked, op = .read p id password ∧ rechecked < m.expiresAt ∧
      ttl = wrap64 (sub m.expiresAt rechecked + hour) ∧
      front = readChecks id m now (.error err) rechecked := by
  have hmakes := makes_of_reaches hreach
  cases op with
  | read p id' password =>
      cases hmakes
      cases read_point sys.deps hreach.of_map with
      | @missing m now _ err _ rechecked hlive _ _ hmissing =>
          cases hmissing with
          | mark =>
              exact ⟨p, password, m, now, err, rechecked, rfl, hlive, rfl, List.append_nil _⟩
          | recording hrecord => cases hrecord
      | wrongPassword _ _ _ hrecord =>
          cases hrecord
      | releasing _ _ _ hrelease =>
          cases hrelease with
          | recording _ _ hrecord => cases hrecord
  | _ => cases hmakes

end Thread

/-! ## The life of the marker -/

/-- How long a thread may take from its last look at the clock to the execution
of its `SETNX`. -/
def longestDelay : ℤ := 59 * (60 * second)

/-- The marker is set at most 59 minutes after the reading its life time was
computed from. -/
def isPromptMark (s : Config) : LossyAction → Bool
  | .advance i _ =>
      match s.pending? i, (s.trace i).getLast? with
      | some (.bodiesMarkUnavailableOnce ..), some ⟨.now, time⟩ =>
          s.store.clock ≤ time + longestDelay
      | _, _ => true
  | _ => true

/-- A marker outlives the last moment at which a prompt thread may ask for it. -/
theorem marker_outlasts {expiresAt rechecked clock ttl : ℤ} (hlive : rechecked < expiresAt)
    (hclock : rechecked ≤ clock) (httl : ttl = wrap64 (sub expiresAt rechecked + hour))
    (hpositive : 0 < ttl) : expiresAt + longestDelay < clock + Bodies.redisTTL ttl := by
  -- a sum that does not fit wraps to a negative number and is refused
  have hexact : ttl = expiresAt - rechecked + hour := by
    subst httl
    simp only [wrap64, sub, hour] at *
    omega
  have htruncate : ttl - millisecond < truncate ttl millisecond := by
    simp only [truncate, millisecond]
    omega
  have hle : truncate ttl millisecond ≤ Bodies.redisTTL ttl := le_max_right _ _
  simp only [longestDelay, second, hour, millisecond] at *
  omega

/-- How the marker of a paste changes. -/
theorem RedisStep.marker {store : Store} {step : Step} {redis : Keyspace Bytes}
    (hstep : RedisStep store step redis) (id : UUID) :
    redis (Bodies.unavailableKey id) = store.redis (Bodies.unavailableKey id) ∨
      ∃ ttl, step = ⟨.bodiesMarkUnavailableOnce id ttl, .ok true⟩ ∧ 0 < ttl ∧
        store.redis.find store.clock (Bodies.unavailableKey id) = none ∧
        redis (Bodies.unavailableKey id) =
          some ⟨ascii "1", store.clock + Bodies.redisTTL ttl⟩ := by
  cases hstep with
  | put id' record ttl _ hput =>
      obtain ⟨-, rfl⟩ := Bodies.put_eq_ok_iff.mp hput
      exact .inl (Keyspace.set_of_ne _ _ (Bodies.bodyKey_ne_unavailableKey id' id).symm)
  | delete id' =>
      exact .inl (Keyspace.del_of_ne _ (Bodies.bodyKey_ne_unavailableKey id' id).symm)
  | mark id' ttl first _ hmark =>
      rcases Bodies.markUnavailableOnce_eq_ok hmark with ⟨-, rfl⟩ | ⟨rfl, hpositive, hnone, rfl⟩
      · exact .inl rfl
      · by_cases hid : id = id'
        · subst hid
          exact .inr ⟨ttl, rfl, hpositive, hnone, Keyspace.set_self ..⟩
        · exact .inl (Keyspace.set_of_ne _ _ fun heq => hid (Bodies.unavailableKey_injective heq))
  | other => exact .inl rfl

/-- A thread that is told so has written the marker. -/
theorem lossyExec_marked {P : Primitives} {store after : Store} {ttl : ℤ} {choice : LossyChoice}
    (hexec : lossyExec P store (.bodiesMarkUnavailableOnce id ttl) choice =
      some (.ok true, after)) :
    0 < ttl ∧ store.redis.find store.clock (Bodies.unavailableKey id) = none ∧
      after.redis (Bodies.unavailableKey id) =
        some ⟨ascii "1", store.clock + Bodies.redisTTL ttl⟩ := by
  rcases lossyExec_cases hexec with ⟨plain, hplain⟩ | ⟨_, _, -, ⟨⟩, -⟩
  cases plain with
  | ok =>
      rcases Store.writeRedis_cases (Option.some.inj hplain) with
        ⟨err, -, ⟨⟩, -⟩ | ⟨first, redis, hmark, hfirst, rfl⟩
      cases hfirst
      rcases Bodies.markUnavailableOnce_eq_ok hmark with ⟨⟨⟩, -⟩ | ⟨-, hpositive, hnone, rfl⟩
      exact ⟨hpositive, hnone, Keyspace.set_self ..⟩
  | _ => cases hplain

/-! ## The invariant -/

/-- No reading is ahead of the clock, every marker that was written is there and
will be for long enough, and none was written twice. -/
structure MarkedOnce (s : Config) : Prop where
  readings : ∀ i time, s.Did i .now time → time ≤ s.store.clock
  marker : ∀ j id ttl, s.Did j (.bodiesMarkUnavailableOnce id ttl) (.ok true) →
    ∃ m entry, s.Did j (.metasGet id) (.ok m) ∧
      s.store.redis (Bodies.unavailableKey id) = some entry ∧
      m.expiresAt + longestDelay < entry.expireAt
  once : ∀ j k id ttl ttl', s.Did j (.bodiesMarkUnavailableOnce id ttl) (.ok true) →
    s.Did k (.bodiesMarkUnavailableOnce id ttl') (.ok true) → j = k

/-- Nothing but the log, the markers and the clock matters. -/
theorem MarkedOnce.of_store (hmarked : MarkedOnce s) (hlog : next.log = s.log)
    (hmarkers : ∀ id, next.store.redis (Bodies.unavailableKey id) =
      s.store.redis (Bodies.unavailableKey id))
    (hclock : s.store.clock ≤ next.store.clock) : MarkedOnce next where
  readings i time hdid := by
    rw [Config.Did, hlog] at hdid
    exact (hmarked.readings i time hdid).trans hclock
  marker j id ttl hdid := by
    rw [Config.Did, hlog] at hdid
    obtain ⟨m, entry, hget, hentry, hlong⟩ := hmarked.marker j id ttl hdid
    refine ⟨m, entry, ?_, (hmarkers id).trans hentry, hlong⟩
    rw [Config.Did, hlog]
    exact hget
  once j k id ttl ttl' hdid hdid' := by
    rw [Config.Did, hlog] at hdid hdid'
    exact hmarked.once j k id ttl ttl' hdid hdid'

section Step

variable {op : Op} {request : Call} {reply : request.Reply} {store : Store}
  {choice : LossyChoice} {proc : Port Result}

/-- A prompt thread that asks for a marker that was written finds it. -/
theorem MarkedOnce.live (hmarked : MarkedOnce s) (horigin : RowOrigin sys start s)
    (hcovered : Covered start) {ttl ttl' : ℤ} (hprompt : isPromptMark s (.advance i choice) = true)
    (hpending : s.pending? i = some (.bodiesMarkUnavailableOnce id ttl))
    (hreach : (program sys op).Reaches (s.trace i) (.inl (.bodiesMarkUnavailableOnce id ttl)))
    (hdid : s.Did j (.bodiesMarkUnavailableOnce id ttl') (.ok true)) :
    s.store.redis.find s.store.clock (Bodies.unavailableKey id) ≠ none := by
  obtain ⟨m, entry, hget, hentry, hlong⟩ := hmarked.marker j id ttl' hdid
  obtain ⟨p, password, m', now, err, rechecked, -, hlive, -, htrace⟩ :=
    call_bodiesMarkUnavailableOnce hreach
  have hget' : s.Did i (.metasGet id) (.ok m') :=
    Config.did_of_trace htrace (by simp [readChecks])
  have hexpires : m.expiresAt = m'.expiresAt := expiresAt_of_core
    (horigin.core_eq hcovered (horigin.row_got j id m hget) (horigin.row_got i id m' hget'))
  simp only [isPromptMark, hpending, htrace, readChecks, List.getLast?_cons_cons,
    List.getLast?_singleton, decide_eq_true_eq] at hprompt
  have hsome : s.store.redis.find s.store.clock (Bodies.unavailableKey id) = some entry :=
    Keyspace.find_of_le hentry (by omega)
  simp [hsome]

theorem MarkedOnce.answer (hmarked : MarkedOnce s) (horigin : RowOrigin sys start s)
    (hcovered : Covered start) (hprompt : isPromptMark s (.advance i choice) = true)
    (hpending : s.pending? i = some request)
    (hreach : (program sys op).Reaches (s.trace i) (.inl request))
    (hexec : lossyExec sys.prims s.store request choice = some (reply, store)) :
    MarkedOnce (s.answer i proc ⟨request, reply⟩ store) := by
  have hextends := Config.extends_answer (s := s) i proc ⟨request, reply⟩ store
  have hclock := lossyExec_clock hexec
  obtain ⟨out, -, hredis, -⟩ := lossyExec_steps hexec
  -- a marker that was written stays as it is
  have hstays : ∀ j id ttl, s.Did j (.bodiesMarkUnavailableOnce id ttl) (.ok true) →
      store.redis (Bodies.unavailableKey id) = s.store.redis (Bodies.unavailableKey id) := by
    intro j id ttl hdid
    rcases hredis.marker id with hsame | ⟨ttl', hstep, -, hnone, -⟩
    · exact hsame
    · cases hstep
      exact absurd hnone (hmarked.live horigin hcovered hprompt hpending hreach hdid)
  -- and a new one is written only where there was none
  have hnew : ∀ j id ttl, (s.answer i proc ⟨request, reply⟩ store).Did j
      (.bodiesMarkUnavailableOnce id ttl) (.ok true) →
      s.Did j (.bodiesMarkUnavailableOnce id ttl) (.ok true) ∨
        j = i ∧ (∀ k ttl', ¬ s.Did k (.bodiesMarkUnavailableOnce id ttl') (.ok true)) ∧
          ∃ m entry, s.Did i (.metasGet id) (.ok m) ∧
            store.redis (Bodies.unavailableKey id) = some entry ∧
            m.expiresAt + longestDelay < entry.expireAt := by
    intro j id ttl hdid
    rcases Config.did_answer.mp hdid with hdid | ⟨rfl, heq⟩
    · exact .inl hdid
    · cases heq
      obtain ⟨p, password, m, now, err, rechecked, -, hlive, httl, htrace⟩ :=
        call_bodiesMarkUnavailableOnce hreach
      obtain ⟨hpositive, hnone, hentry⟩ := lossyExec_marked hexec
      refine .inr ⟨rfl, fun k ttl' hdid => hmarked.live horigin hcovered hprompt hpending hreach
        hdid hnone, m, _, ?_, hentry, ?_⟩
      · rw [Config.did_iff_mem_trace, htrace]
        simp [readChecks]
      · refine marker_outlasts hlive (hmarked.readings j rechecked ?_) httl hpositive
        rw [Config.did_iff_mem_trace, htrace]
        simp [readChecks]
  constructor
  case readings =>
    intro j time hdid
    rw [Config.store_answer, hclock]
    rcases Config.did_answer.mp hdid with hdid | ⟨-, heq⟩
    · exact hmarked.readings j time hdid
    · cases heq
      obtain ⟨plain, hplain⟩ := lossyExec_plain hexec (fun _ => by simp [failure])
      exact le_of_eq (exec_observed hplain)
  case marker =>
    intro j id ttl hdid
    rw [Config.store_answer]
    rcases hnew j id ttl hdid with hbefore | ⟨rfl, -, m, entry, hget, hentry, hlong⟩
    · obtain ⟨m, entry, hget, hentry, hlong⟩ := hmarked.marker j id ttl hbefore
      exact ⟨m, entry, hextends.did hget, (hstays j id ttl hbefore).trans hentry, hlong⟩
    · exact ⟨m, entry, hextends.did hget, hentry, hlong⟩
  case once =>
    intro j k id ttl ttl' hdid hdid'
    rcases hnew j id ttl hdid with hbefore | ⟨hj, hnone, -⟩ <;>
      rcases hnew k id ttl' hdid' with hbefore' | ⟨hk, hnone', -⟩
    · exact hmarked.once j k id ttl ttl' hbefore hbefore'
    · exact absurd hbefore (hnone' j ttl)
    · exact absurd hbefore' (hnone k ttl')
    · rw [hj, hk]

end Step

theorem markedOnce_of_run (hcovered : Covered start)
    (hrun : (lossyMachine sys).Run
      (fun s action => LossyForward s action ∧ isPromptMark s action = true)
      (.initial start) s) : MarkedOnce s := by
  refine hrun.induct .initial ?_ ?_ ?_ ?_
  · constructor <;> simp [Config.Did, Config.initial]
  · intro s change store _ hmarked hallowed henv
    cases change with
    | plain change =>
        cases change with
        | tick time =>
            cases henv
            exact hmarked.of_store rfl (fun _ => rfl) hallowed.1
        | restart envelope =>
            cases henv
            exact hmarked.of_store rfl (fun _ => rfl) le_rfl
    | loseBody id =>
        cases henv
        exact hmarked.of_store rfl
          (fun id' => Keyspace.del_of_ne _ (Bodies.bodyKey_ne_unavailableKey id id').symm) le_rfl
  · intro s op _ hmarked _
    exact hmarked.of_store rfl (fun _ => rfl) le_rfl
  · intro s i op choice request reply store proc hpast hmarked hallowed hop hpending hreach hexec
    exact hmarked.answer (rowOrigin_of_run hpast) hcovered hallowed.2 hpending hreach hexec

/-! ## Events -/

def isUnavailable (id : UUID) (event : Event) : Bool :=
  event.kind = .pasteUnavailable && event.pasteId = some id

def isUnavailableStep (id : UUID) (step : Step) : Bool := (eventOf step).any (isUnavailable id)

/-- Where the event stands in the trace of a thread, and that the thread has
written the marker. -/
theorem unavailable_place (hwf : (lossyMachine sys).WellFormed s) {front back : List Step}
    {step : Step} (htrace : s.trace i = front ++ step :: back)
    (hstep : isUnavailableStep id step = true) :
    front.length = 6 ∧ ∃ ttl, s.Did i (.bodiesMarkUnavailableOnce id ttl) (.ok true) := by
  obtain ⟨op, -, hreach⟩ := hwf.reaches_of_trace htrace
  obtain ⟨event, hevent, his⟩ := (Option.any_eq_true _ _).mp hstep
  cases eventOf_eq_some_iff.mp hevent
  simp only [isUnavailable, Bool.and_eq_true, decide_eq_true_eq] at his
  obtain ⟨p, id', password, m, now, err, rechecked, time, -, hid, -, -, rfl⟩ :=
    call_pasteUnavailable his.1 hreach
  cases his.2.symm.trans hid
  refine ⟨rfl, wrap64 (sub m.expiresAt rechecked + hour), ?_⟩
  rw [Config.did_iff_mem_trace, htrace]
  simp

/-- On a Redis that keeps the marker, whatever else it loses, and with a clock
that does not run backwards: if every thread sets the marker within 59 minutes
of its last look at the clock, the loss of a body is recorded once at most, and
only by a `Read` that last looked at the clock before the expiry. -/
theorem unavailable_recorded_once (sys : Params) (start : Store) (hcovered : Covered start)
    (s : Config)
    (hrun : (lossyMachine sys).Run
      (fun s action => LossyForward s action ∧ isPromptMark s action = true)
      (.initial start) s) (id : UUID) :
    (events s).countP (isUnavailable id) ≤ 1 ∧
      ∀ j event, s.Did j (.auditRecord event) () → isUnavailable id event = true →
        ∃ p password m now err rechecked, s.ops[j]? = some (.read p id password) ∧
          readChecks id m now (.error err) rechecked <+: s.trace j ∧ rechecked < m.expiresAt := by
  have hwf := hrun.wellFormed .initial
  have hmarked := markedOnce_of_run hcovered hrun
  constructor
  · rw [countP_events]
    change (s.log.countP fun entry => isUnavailableStep id entry.2) ≤ 1
    refine hwf.countP_log_le_one (fun i => ?_) ?_
    · exact Machine.countP_le_one 6 fun front step back htrace hstep =>
        (unavailable_place hwf htrace hstep).1
    · rintro i j ⟨step, hmem, hstep⟩ ⟨step', hmem', hstep'⟩
      obtain ⟨front, back, htrace⟩ := List.append_of_mem hmem
      obtain ⟨front', back', htrace'⟩ := List.append_of_mem hmem'
      obtain ⟨ttl, hdid⟩ := (unavailable_place hwf htrace hstep).2
      obtain ⟨ttl', hdid'⟩ := (unavailable_place hwf htrace' hstep').2
      exact hmarked.once i j id ttl ttl' hdid hdid'
  · intro j event hdid his
    simp only [isUnavailable, Bool.and_eq_true, decide_eq_true_eq] at his
    obtain ⟨op, front, back, hop, htrace, hreach⟩ := hwf.reaches_of_did hdid
    obtain ⟨p, id', password, m, now, err, rechecked, time, rfl, hid, -, hlive, rfl⟩ :=
      call_pasteUnavailable his.1 hreach
    cases his.2.symm.trans hid
    refine ⟨p, password, m, now, err, rechecked, hop, ?_, hlive⟩
    rw [htrace, List.append_assoc]
    exact List.prefix_append _ _

namespace Sample

def lossyCalls (i count : ℕ) : List LossyAction :=
  List.replicate count (.advance i (.plain .ok))

/-- A `Create` as thread 0, the loss of its body, and two reads that look at the
clock before either sets the marker. -/
def losing : List LossyAction :=
  [.invoke (.create owner input)] ++ lossyCalls 0 1 ++
    [.advance 0 (.plain (.uuid Sample.id)),
      .advance 0 (.plain (.sealing .granted Crypto.Sample.draws))] ++ lossyCalls 0 5 ++
    [.env (.loseBody Sample.id), .invoke (.read none Sample.id []),
      .invoke (.read none Sample.id [])] ++
    lossyCalls 1 4 ++ lossyCalls 2 4 ++ [.env (.plain (.tick longestDelay))] ++
    lossyCalls 1 3 ++ lossyCalls 2 1

/-- Thread `i` has returned that the body is lost. -/
def reportsLoss (s : Config) (i : ℕ) : Bool :=
  match s.result? i with
  | some (.read (.ok res)) => res.status = .unavailable
  | _ => false

end Sample

theorem unavailable_recorded_once_sample :
    ∃ s, (lossyMachine Sample.params).Run
        (fun s action => LossyForward s action ∧ isPromptMark s action = true) Sample.start s ∧
      Sample.reportsLoss s 1 = true ∧ Sample.reportsLoss s 2 = true ∧
      (events s).countP (isUnavailable Sample.id) = 1 := by
  have hperform : ((lossyMachine Sample.params).perform
      (fun s action => decide (LossyForward s action ∧ isPromptMark s action = true)) Sample.start
      Sample.losing).any (fun s =>
      Sample.reportsLoss s 1 && Sample.reportsLoss s 2 &&
      decide (1 ≤ (events s).countP (isUnavailable Sample.id))) = true := by decide +kernel
  obtain ⟨s, hrun, hs⟩ := Machine.exists_decided_run hperform
  simp only [Bool.and_eq_true, decide_eq_true_eq] at hs
  obtain ⟨⟨hfirst, hsecond⟩, hone⟩ := hs
  have hmost := (unavailable_recorded_once Sample.params _ (covered_empty 0 Crypto.Sample.envelope)
    s hrun Sample.id).1
  exact ⟨s, hrun, hfirst, hsecond, by omega⟩

end SecurePastebin.System
