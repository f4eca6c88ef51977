import SecurePastebin.Session.Deadlines

/-!
# Idle extensions

Once a `Touch` has succeeded the session can be looked up until the deadline
that `Touch` computed, as long as no other call writes an earlier deadline over
it and none removes the live record.  Nothing in the store prevents either: the
script compares its deadline with nothing, and a `Touch` that comes back too
late for its own deadline deletes whatever is stored by then.
-/

namespace SecurePastebin.Session

open Text Uuid Calendar
open Process Interleaving Auth

variable {start s mid next last : Config} {i j : ℕ} {key id : Bytes} {clock : ℤ}
variable {store after : Store} {request : Call} {reply : request.Reply} {choice : Choice}
  {entry : Keyspace.Entry Record}

/-- Executing the call neither moves the deadline of `key` backwards nor removes
a live record. -/
def keepsLater (key : Bytes) (store : Store) : Call → Bool
  | .touchSession other absExp deadline =>
      other ≠ key || (store.find key).all fun entry =>
        entry.value.absExp ≠ absExp || entry.expireAt ≤ deadline * millisecond
  | .del other => other ≠ key || (store.find key).isNone
  | _ => true

/-- Every call the action executes is such a call. -/
def inOrder (key : Bytes) (s : Config) : Action → Bool
  | .advance i choice => !choice.executes || (s.pending? i).all (keepsLater key s.store)
  | _ => true

/-- The record of the session is stored with at least the given deadline. -/
def Held (key : Bytes) (record : Record) (deadline : ℤ) (store : Store) : Prop :=
  ∃ entry, store.keys key = some entry ∧ entry.value = record ∧ deadline ≤ entry.expireAt

theorem Held.find {record : Record} {deadline : ℤ} (hheld : Held key record deadline store)
    (hearly : store.clock < deadline) :
    ∃ entry, store.find key = some entry ∧ entry.value = record ∧ deadline ≤ entry.expireAt := by
  obtain ⟨entry, hentry, hvalue, hle⟩ := hheld
  exact ⟨entry, Keyspace.find_of_le hentry (hearly.le.trans hle), hvalue, hle⟩

theorem Held.exec {record : Record} {deadline : ℤ} (hheld : Held key record deadline store)
    (hearly : store.clock < deadline) (hexec : exec store request choice = some (reply, after))
    (horder : choice.executes = true → keepsLater key store request = true) :
    Held key record deadline after := by
  obtain ⟨entry, hfound, hvalue, hle⟩ := hheld.find hearly
  rcases exec_key hexec key with hkept | ⟨hexecutes, heffect⟩
  · obtain ⟨entry, hentry, hrest⟩ := hheld
    exact ⟨entry, hkept ▸ hentry, hrest⟩
  have hkeeps := horder hexecutes
  generalize hleft : after.keys key = left at heffect
  cases heffect with
  | kept =>
      obtain ⟨entry, hentry, hrest⟩ := hheld
      exact ⟨entry, hleft.trans hentry, hrest⟩
  | removed => simp [keepsLater, hfound] at hkeeps
  | createDropped record habsent | created record habsent => simp [habsent] at hfound
  | touchDropped hcurrent hpast =>
      simp only [keepsLater, hcurrent, ne_eq, not_true_eq_false, decide_false, Option.all_some,
        Bool.false_or, decide_eq_true_eq] at hkeeps
      rw [hfound] at hcurrent
      cases hcurrent
      omega
  | touched hcurrent hahead =>
      simp only [keepsLater, hcurrent, ne_eq, not_true_eq_false, decide_false, Option.all_some,
        Bool.false_or, decide_eq_true_eq] at hkeeps
      rw [hfound] at hcurrent
      cases hcurrent
      exact ⟨_, hleft, hvalue, hle.trans hkeeps⟩

/-- No `Create` is given the identifier of the session. -/
def sameSession (key : Bytes) (s : Config) : Action → Bool
  | .advance i _ => (s.pending? i).all fun
      | .createSession other _ _ => other ≠ key
      | _ => true
  | _ => true

/-- The steps that concern one session and keep its deadline. -/
def Orderly (key : Bytes) (s : Config) (action : Action) : Prop :=
  sameSession key s action = true ∧ inOrder key s action = true

instance (key : Bytes) (s : Config) (action : Action) : Decidable (Orderly key s action) :=
  inferInstanceAs (Decidable (_ ∧ _))

theorem Orderly.not_creates {action : Action} (horderly : Orderly key s action) :
    ¬ Performs (Creates key) s action := by
  cases action with
  | env | invoke => exact id
  | advance i choice =>
      rintro ⟨-, request, hpending, hcreates⟩
      have hsame := horderly.1
      rw [sameSession, hpending, Option.all_some] at hsame
      cases request with
      | createSession other record deadline =>
          obtain rfl := hcreates.1
          simp at hsame
      | _ => cases hcreates

theorem Orderly.keepsLater (horderly : Orderly key s (.advance i choice))
    (hpending : s.pending? i = some request) :
    choice.executes = true → keepsLater key s.store request = true := by
  intro hexecutes
  simpa [inOrder, hexecutes, hpending] using horderly.2

/-! ## Time -/

theorem clock_le_of_act {action : Action} (hact : machine.act s action = some next) :
    s.store.clock ≤ next.store.clock := by
  rcases Machine.act_cases hact with ⟨elapsed, store, -, henv, rfl⟩ | ⟨op, -, rfl⟩ |
    ⟨i, choice, request, rest, reply, store, -, -, hexec, rfl⟩
  · cases henv
    have hforward : s.store.clock ≤ s.store.clock + (elapsed : ℤ) := by omega
    exact hforward
  · exact le_rfl
  · exact (exec_clock hexec).ge

/-- As long as the deadline has not passed, a record that is held stays held, and
whoever is invoked meanwhile finds it, before the deadline. -/
theorem held_of_run {record : Record} {deadline : ℤ} (hwf : machine.WellFormed mid)
    (hrun : machine.Run (Orderly key) mid last) (hheld : Held key record deadline mid.store)
    (hearly : last.store.clock < deadline) :
    Held key record deadline last.store ∧ ∀ j step, mid.ops.length ≤ j → (j, step) ∈ last.log →
      (∀ found, step = ⟨.hGetAll key, .ok found⟩ → found = some record) ∧
        ∀ time, step = ⟨.now, time⟩ → time < deadline := by
  have hrestricted := hrun.restrict (fun s => s.store.clock < deadline)
    (fun s action next hact hnext => (clock_le_of_act hact).trans_lt hnext) hearly
  refine hrestricted.since (fun s => Held key record deadline s.store)
    (fun step => (∀ found, step = ⟨.hGetAll key, .ok found⟩ → found = some record) ∧
      ∀ time, step = ⟨.now, time⟩ → time < deadline) hwf hheld ?_ ?_ ?_
  · intro s elapsed store _ hheld _ henv
    cases henv
    exact hheld
  · intro s op _ hheld _
    exact hheld
  · rintro s i op choice request reply store proc _ hheld ⟨horderly, hbefore⟩ _ hpending _ hexec
    refine ⟨hheld.exec hbefore hexec (horderly.keepsLater hpending), ?_, ?_⟩
    · intro found heq
      have hobserved := exec_observed hexec
      rw [heq] at hobserved
      obtain ⟨entry, hfound, hvalue, -⟩ := hheld.find hbefore
      rw [hobserved found rfl, hfound, Option.map_some, hvalue]
    · intro time heq
      have hobserved := exec_observed hexec
      rw [heq] at hobserved
      exact lt_of_eq_of_lt hobserved hbefore

/-- A lookup that found the record before its absolute expiry returns the
session. -/
theorem get_ok {trace : List Step} {raw : Except Err (Session × Bytes)} {record : Record}
    {sess : Session} {deadline : ℤ} (hid : id ≠ []) (hpoint : GetPoint id trace (.inr raw))
    (hdecode : decodeRecord id record = .ok sess) (hle : deadline ≤ sess.absoluteExpiry)
    (hfound : ∀ found, (⟨.hGetAll (sessKey id), .ok found⟩ : Step) ∈ trace → found = some record)
    (hanswered : ∀ err, (⟨.hGetAll (sessKey id), .error err⟩ : Step) ∉ trace)
    (hreadings : ∀ time, (⟨.now, time⟩ : Step) ∈ trace → time < deadline) :
    raw.map Prod.fst = .ok sess := by
  cases hpoint with
  | empty hempty => exact absurd hempty hid
  | missing => cases hfound _ (List.mem_singleton_self _)
  | failed hid err => exact absurd (List.mem_singleton_self _) (hanswered err)
  | malformed hid hfailed =>
      cases hfound _ (List.mem_singleton_self _)
      rw [hdecode] at hfailed
      cases hfailed
  | @expiredDone hid found stored time hstored hexpired reply =>
      cases hfound (some found) (by simp [foundSteps])
      rw [hdecode] at hstored
      cases hstored
      have htime := hreadings time (by simp [foundSteps])
      exact absurd hexpired (not_le.mpr (htime.trans_le hle))
  | @found hid found stored time hstored hlive =>
      cases hfound (some found) (by simp [foundSteps])
      rw [hdecode] at hstored
      cases hstored
      rfl

/-! ## After a successful touch -/

/-- A `Touch` that has succeeded has stored its deadline, and the deadline was
still ahead when it did. -/
theorem held_of_touched {base : Config} (hwf : machine.WellFormed base)
    (hstored : base.store.keys (sessKey id) = some entry)
    (hrun : machine.Run (Orderly (sessKey id)) base mid) (hinvoked : base.ops.length ≤ i)
    {idleTTL : ℤ} (hreturned : mid.Returned i (.touch id idleTTL) (.done (.ok ()))) :
    ∃ sess reading deadline, decodeRecord id entry.value = .ok sess ∧ id ≠ [] ∧
      (repliesTo .now (mid.trace i))[1]? = some reading ∧
      sessionDeadline idleTTL sess.absoluteExpiry reading = .ok deadline ∧
      ∃ before, machine.WellFormed before ∧ machine.Run (Orderly (sessKey id)) before mid ∧
        Held (sessKey id) entry.value deadline before.store := by
  have hpoint := touch_returns ((hrun.wellFormed hwf).reaches_returned hreturned)
  have hvalue : ∀ {s : Config} {found : Keyspace.Entry Record},
      machine.Run (Orderly (sessKey id)) base s → s.store.find (sessKey id) = some found →
      found.value = entry.value := by
    intro s found hpast hfound
    obtain ⟨first, hfirst, hsame⟩ := kept_of_run (·.value) value_before
      (hpast.weaken fun _ _ h => h.not_creates) (Keyspace.find_eq_some_iff.mp hfound).1
    rw [hstored] at hfirst
    cases hfirst
    exact hsame.symm
  generalize htrace : mid.trace i = trace at hpoint
  cases hpoint with
  | @done httl record sess time now deadline last hget hdeadline hearly =>
      cases hget with
      | found hid hdecode hlive =>
      -- what the lookup saw
      obtain ⟨m₀, _, _, _, hpast₀, -, -, -, hexec₀, -, -⟩ := hrun.at_entry [] _ _
        (by rw [hwf.trace_eq_nil hinvoked]) htrace
      obtain ⟨found₀, hfound₀, hrecord⟩ :=
        Option.map_eq_some_iff.mp (exec_observed hexec₀ _ rfl).symm
      rw [hvalue hpast₀ hfound₀] at hrecord
      -- what the script found and wrote
      obtain ⟨m₁, choice, store, proc, hpast₁, -, hfront, -, hexec₁, hact, hafter⟩ := hrun.at_entry
        (foundSteps id record time ++ [⟨.now, now⟩]) _ [⟨.now, last⟩] (by simp [hwf.trace_eq_nil hinvoked]) htrace
      obtain ⟨found₁, hfound₁, habs⟩ := found_of_touched (exec_observed hexec₁ _ rfl)
      -- the reading after it, which was early enough
      obtain ⟨m₂, _, _, _, hpast₂, -, -, -, hexec₂, -, -⟩ := hafter.at_entry
        (foundSteps id record time ++ [⟨.now, now⟩] ++
          [⟨touchCall id record deadline, .ok 1⟩]) ⟨.now, last⟩ []
        (by rw [Config.trace_answer_self, hfront]) (by rw [htrace]; rfl)
      have hclock : store.clock ≤ m₂.store.clock :=
        hpast₂.le_of_act (fun s => s.store.clock) clock_le_of_act
      rw [exec_clock hexec₁] at hclock
      have hlast : last = m₂.store.clock := exec_observed hexec₂
      obtain ⟨hmilli, -, -⟩ := sessionDeadline_bounds hdeadline
      have hsets : SetsDeadline (sessKey id) m₁.store (touchCall id record deadline) :=
        ⟨rfl, ⟨found₁, hfound₁, habs⟩, by rw [hmilli]; omega⟩
      obtain ⟨current, hcurrent, -, hset⟩ :=
        touches_effect hsets hexec₁ (executes_of_touched hexec₁)
      have hsame : current.value = entry.value := hvalue hpast₁ hcurrent
      exact ⟨sess, now, deadline, hrecord ▸ hdecode, hid, rfl, hdeadline, _,
        (hpast₁.wellFormed hwf).act hact, hafter, _, hset, hsame, hmilli.ge⟩

/-- Along every run on a stored session in which deadlines are only moved
forward and no live record is removed: once a `Touch` whose deadline was
computed from `reading` has succeeded, the session is there and every later
lookup returns it, until that deadline. -/
theorem no_lost_extension {base : Config} {idleTTL : ℤ}
    (hbase : machine.Run anyStep (.initial (.empty clock)) base)
    (hstored : base.store.keys (sessKey id) = some entry)
    (hrun : machine.Run (Orderly (sessKey id)) base mid) (hinvoked : base.ops.length ≤ i)
    (hreturned : mid.Returned i (.touch id idleTTL) (.done (.ok ()))) :
    ∃ sess reading, decodeRecord id entry.value = .ok sess ∧
      (repliesTo .now (mid.trace i))[1]? = some reading ∧
      ∀ last, machine.Run (Orderly (sessKey id)) mid last →
        last.store.clock < truncate (min (reading + idleTTL) sess.absoluteExpiry) millisecond →
        (∃ live, last.store.find (sessKey id) = some live ∧ live.value = entry.value) ∧
        ∀ j outcome, mid.ops.length ≤ j → last.Returned j (.get id) (.session outcome) →
          (∀ err, ¬ last.Did j (.hGetAll (sessKey id)) (.error err)) → outcome = .ok sess := by
  have hwf := hbase.wellFormed .initial
  obtain ⟨sess, reading, deadline, hdecode, hid, hreading, hdeadline, before, hbefore, hpast,
    hheld⟩ := held_of_touched hwf hstored hrun hinvoked hreturned
  refine ⟨sess, reading, hdecode, hreading, ?_⟩
  intro last hlater hearly
  rw [← (sessionDeadline_eq_ok.mp hdeadline).2.2.2] at hearly
  have hle := (sessionDeadline_bounds hdeadline).2.2
  obtain ⟨hlast, hfacts⟩ := held_of_run hbefore (hpast.trans hlater) hheld hearly
  obtain ⟨live, hlive, hvalue, -⟩ := hlast.find hearly
  refine ⟨⟨live, hlive, hvalue⟩, ?_⟩
  intro j outcome hj hgot hanswered
  have hwf' := (hpast.trans hlater).wellFormed hbefore
  obtain ⟨raw, hpoint, rfl⟩ := get_returns (hwf'.reaches_returned hgot)
  have hj' : before.ops.length ≤ j := hpast.extends.ops.length_le.trans hj
  refine get_ok hid hpoint hdecode hle ?_ ?_ ?_
  · intro found hmem
    exact (hfacts j _ hj' ((last.did_iff_mem_trace ..).mpr hmem)).1 found rfl
  · intro err hmem
    exact hanswered err ((last.did_iff_mem_trace ..).mpr hmem)
  · intro time hmem
    exact (hfacts j _ hj' ((last.did_iff_mem_trace ..).mpr hmem)).2 time rfl

/-- Two requests touch a session; the one that read the clock first writes last.
Ten minutes of the other's extension are lost: the session is gone although the
other `Touch` succeeded less than thirty minutes ago. -/
theorem extension_lost :
    ∃ base s sess reading, machine.Run anyStep Sample.start base ∧
      base.Returned 0 (.create Sample.user (1800 * second) (12 * hour)) (.session (.ok sess)) ∧
      machine.Run anyStep base s ∧
      s.ops.drop 1 = [.touch sess.id (1800 * second), .touch sess.id (1800 * second),
        .get sess.id] ∧
      s.Returned 1 (.touch sess.id (1800 * second)) (.done (.ok ())) ∧
      s.Returned 2 (.touch sess.id (1800 * second)) (.done (.ok ())) ∧
      (repliesTo .now (s.trace 2))[1]? = some reading ∧
      s.store.clock <
        truncate (min (reading + 1800 * second) sess.absoluteExpiry) millisecond ∧
      s.Returned 3 (.get sess.id) (.session (.error .sessionNotFound)) := by
  have hperform : (machine.perform (fun _ _ => true) Sample.start
      (Sample.storing 0 (1800 * second) (12 * hour) ++ Sample.calls 0 1)).any (fun base =>
      base.ops[0]? = some (.create Sample.user (1800 * second) (12 * hour)) &&
      ((base.result? 0).bind Result.sessionOk?).any fun sess =>
        (machine.perform (fun _ _ => true) base
          (.invoke (.touch sess.id (1800 * second)) :: Sample.calls 1 3 ++
            .env 600000000000 :: .invoke (.touch sess.id (1800 * second)) ::
            Sample.calls 2 5 ++ Sample.calls 1 2 ++ .env 1500000000000 ::
            .invoke (.get sess.id) :: Sample.calls 3 1)).any fun s =>
          s.ops.drop 1 = [.touch sess.id (1800 * second), .touch sess.id (1800 * second),
            .get sess.id] &&
          s.result? 1 = some (.done (.ok ())) && s.result? 2 = some (.done (.ok ())) &&
          s.result? 3 = some (.session (.error .sessionNotFound)) &&
          (repliesTo .now (s.trace 2))[1]?.any fun reading =>
            s.store.clock <
              truncate (min (reading + 1800 * second) sess.absoluteExpiry) millisecond) =
        true := by decide +kernel
  obtain ⟨base, hbase, hs⟩ := Machine.exists_any_run hperform
  rw [Bool.and_eq_true, decide_eq_true_eq, Option.any_eq_true] at hs
  obtain ⟨hop, sess, hsess, hs⟩ := hs
  have hcreated := (base.returned_iff 0 _ _).mpr ⟨hop, Result.bind_sessionOk?.mp hsess⟩
  obtain ⟨s, hrun, hs⟩ := Machine.exists_any_run hs
  simp only [Bool.and_eq_true, decide_eq_true_eq, Option.any_eq_true] at hs
  obtain ⟨⟨⟨⟨hops, hfirst⟩, hsecond⟩, hget⟩, reading, hreading, hearly⟩ := hs
  have hdrop : ∀ k, s.ops[k + 1]? = (s.ops.drop 1)[k]? := fun k => by
    rw [List.getElem?_drop, Nat.add_comm]
  have hone : s.ops[1]? = some (.touch sess.id (1800 * second)) := by
    rw [hdrop 0, hops]
    rfl
  have htwo : s.ops[2]? = some (.touch sess.id (1800 * second)) := by
    rw [hdrop 1, hops]
    rfl
  have hthree : s.ops[3]? = some (.get sess.id) := by
    rw [hdrop 2, hops]
    rfl
  exact ⟨base, s, sess, reading, hbase, hcreated, hrun, hops,
    (s.returned_iff 1 _ _).mpr ⟨hone, hfirst⟩, (s.returned_iff 2 _ _).mpr ⟨htwo, hsecond⟩,
    hreading, hearly, (s.returned_iff 3 _ _).mpr ⟨hthree, hget⟩⟩

/-- The step is not a lookup that failed. -/
def Sample.isAnswered : Step → Bool
  | ⟨.hGetAll _, .error _⟩ => false
  | _ => true

/-- Two touches in order, and a lookup twenty-five minutes after the second. -/
theorem no_lost_extension_sample :
    ∃ base mid last sess outcome, machine.Run anyStep Sample.start base ∧
      machine.Run (Orderly (sessKey Sample.id)) base mid ∧
      mid.Returned 2 (.touch Sample.id (1800 * second)) (.done (.ok ())) ∧
      machine.Run (Orderly (sessKey Sample.id)) mid last ∧
      last.store.clock = Sample.clock + 2100 * second ∧
      last.Returned 3 (.get Sample.id) (.session outcome) ∧ outcome = .ok sess := by
  have hperform : (machine.perform (fun _ _ => true) Sample.start
      (Sample.storing 0 (1800 * second) (12 * hour) ++ Sample.calls 0 1)).any (fun base =>
      base.ops.length ≤ 2 && (base.store.keys (sessKey Sample.id)).any (fun entry =>
        (decodeRecord Sample.id entry.value).toOption.any fun sess =>
          sess.absoluteExpiry = Sample.clock + 12 * hour) &&
      (machine.perform (fun s action => decide (Orderly (sessKey Sample.id) s action)) base
        (.invoke (.touch Sample.id (1800 * second)) :: Sample.calls 1 5 ++
          .env 600000000000 :: .invoke (.touch Sample.id (1800 * second)) ::
          Sample.calls 2 5)).any fun mid =>
        mid.ops[2]? = some (.touch Sample.id (1800 * second)) &&
        mid.result? 2 = some (.done (.ok ())) && mid.ops.length ≤ 3 &&
        (repliesTo .now (mid.trace 2))[1]? = some (Sample.clock + 600 * second) &&
        (machine.perform (fun s action => decide (Orderly (sessKey Sample.id) s action)) mid
          (.env 1500000000000 :: .invoke (.get Sample.id) :: Sample.calls 3 2)).any fun last =>
          last.store.clock = Sample.clock + 2100 * second &&
          last.ops[3]? = some (.get Sample.id) &&
          (last.trace 3).all Sample.isAnswered &&
          ((last.result? 3).bind Result.session?).isSome) = true := by decide +kernel
  obtain ⟨base, hbase, hs⟩ := Machine.exists_any_run hperform
  simp only [Bool.and_eq_true, decide_eq_true_eq] at hs
  obtain ⟨⟨hlength, hstored⟩, hs⟩ := hs
  obtain ⟨mid, hrun, hs⟩ := Machine.exists_decided_run hs
  simp only [Bool.and_eq_true, decide_eq_true_eq] at hs
  obtain ⟨⟨⟨⟨htouch, htouched⟩, hthree⟩, hreading⟩, hs⟩ := hs
  obtain ⟨last, hlater, hs⟩ := Machine.exists_decided_run hs
  simp only [Bool.and_eq_true, decide_eq_true_eq] at hs
  obtain ⟨⟨⟨hclock, hget⟩, hanswered⟩, hs⟩ := hs
  rw [Option.any_eq_true] at hstored
  obtain ⟨entry, hentry, hdecode⟩ := hstored
  have hreturned := (mid.returned_iff 2 _ _).mpr ⟨htouch, htouched⟩
  obtain ⟨sess, reading, hsess, hfound, hlast⟩ :=
    no_lost_extension hbase hentry hrun hlength hreturned
  rw [hsess] at hdecode
  have habs : sess.absoluteExpiry = Sample.clock + 12 * hour := of_decide_eq_true hdecode
  obtain rfl : Sample.clock + 600 * second = reading := Option.some.inj (hreading.symm.trans hfound)
  obtain ⟨outcome, hresult⟩ := Option.isSome_iff_exists.mp hs
  have hgot := (last.returned_iff 3 _ _).mpr ⟨hget, Result.bind_session?.mp hresult⟩
  obtain ⟨-, hok⟩ := hlast last hlater (by rw [hclock, habs]; decide)
  refine ⟨base, mid, last, sess, outcome, hbase, hrun, hreturned, hlater, hclock, hgot,
    hok 3 outcome hthree hgot ?_⟩
  intro err hdid
  have := List.all_eq_true.mp hanswered _ ((last.did_iff_mem_trace ..).mp hdid)
  cases this

end SecurePastebin.Session
