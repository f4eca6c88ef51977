import SecurePastebin.Core.Interleaving
import SecurePastebin.Ratelimit.Limiter

/-!
# Fixed windows under interleaving

Any number of `Allow` calls run interleaved while time passes.  Each allowed
call is one hit on its bucket with a count within the limit, so that the bounds
on the hits of one lifetime and of one interval bound the allowed calls.
-/

namespace SecurePastebin.Ratelimit

open Text Calendar Process
open Interleaving FixedWindow

/-! ## Bucket keys -/

theorem colon_notMem_text (scope : Scope) : (58 : UInt8) ∉ scope.text := by
  cases scope <;> decide

theorem text_injective {scope other : Scope} (htext : scope.text = other.text) : scope = other := by
  cases scope <;> cases other <;> first | rfl | exact absurd htext (by decide)

theorem eq_of_append_colon {text other rest rest' : Bytes} (htext : (58 : UInt8) ∉ text)
    (hother : (58 : UInt8) ∉ other) (heq : text ++ 58 :: rest = other ++ 58 :: rest') :
    text = other ∧ rest = rest' := by
  have hhead : ∀ {text rest : Bytes}, (58 : UInt8) ∉ text →
      (text ++ 58 :: rest).takeWhile (· ≠ 58) = text := by
    intro text rest hnotMem
    rw [List.takeWhile_append_of_pos (by
      intro byte hbyte
      simpa using fun heq : byte = 58 => hnotMem (heq ▸ hbyte))]
    simp
  have hsame : text = other := by
    rw [← hhead htext, heq, hhead hother]
  subst hsame
  exact ⟨rfl, List.cons_injective (List.append_cancel_left heq)⟩

/-- Distinct scopes and keys have distinct buckets. -/
theorem bucketKey_injective {scope other : Scope} {key key' : Bytes}
    (heq : bucketKey scope key = bucketKey other key') : scope = other ∧ key = key' := by
  have hcolon : ascii ":" = [58] := by decide
  simp only [bucketKey, hcolon, List.append_assoc, List.append_cancel_left_eq,
    List.singleton_append] at heq
  obtain ⟨htext, hkey⟩ :=
    eq_of_append_colon (colon_notMem_text scope) (colon_notMem_text other) heq
  exact ⟨text_injective htext, hkey⟩

/-! ## The machine -/

structure Store where
  clock : ℤ
  buckets : Buckets

/-- The counter under `key`, unless it has expired. -/
def Store.find (store : Store) (key : Bytes) : Option Counter :=
  (store.buckets.counters key).filter fun counter =>
    Keyspace.Alive (millis store.clock) counter.expireAt

theorem Store.find_eq_some_iff (store : Store) (key : Bytes) (counter : Counter) :
    store.find key = some counter ↔
      store.buckets.counters key = some counter ∧ millis store.clock ≤ counter.expireAt := by
  simp [find, Option.filter_eq_some_iff]

theorem Store.expired_of_find {store : Store} {key : Bytes} (hfind : store.find key = none)
    {counter : Counter} (hcounter : store.buckets.counters key = some counter) :
    counter.expireAt < millis store.clock := by
  by_contra halive
  rw [(store.find_eq_some_iff key counter).mpr ⟨hcounter, not_lt.mp halive⟩] at hfind
  cases hfind

inductive Op where
  | allow (scope : Scope) (key : Bytes)
  deriving DecidableEq

/-- Time passes. -/
abbrev Env := ℕ

def machine (limiter : Limiter) : Machine Store Op Call Call.Reply Choice Env Decision where
  program | .allow scope key => allow limiter scope key
  exec store request choice :=
    (exec store.buckets store.clock request choice).map fun outcome =>
      (outcome.1, { store with buckets := outcome.2 })
  env store elapsed := some { store with clock := store.clock + elapsed }

abbrev Config := Interleaving.Config Store Op Call Call.Reply Decision

abbrev Action := Interleaving.Action Op Choice Env

/-- A Redis that holds no bucket yet. -/
def start (clock : ℤ) : Config := .initial ⟨clock, .empty⟩

/-! ## A concrete limiter -/

namespace Sample

/-- One unlock attempt a second. -/
def rule : Rule := ⟨1, second⟩

def limiter : Limiter := ⟨fun _ => some rule, true⟩

def key : Bytes := ascii "192.0.2.1"

end Sample

/-! ## Points of a call -/

variable {limiter : Limiter} {scope : Scope} {rule : Rule} {key : Bytes} {trace : List Step}

/-- The only call of `Allow` is the script on its bucket, with the window of its
rule. -/
theorem allow_call {request : Call}
    (hreach : (allow limiter scope key).Reaches trace (.inl request)) :
    trace = [] ∧ ∃ rule, limiter.rules scope = some rule ∧
      request = .fixedWindow (bucketKey scope key) rule.windowMillis := by
  unfold allow at hreach
  split at hreach
  · cases hreach.2
  · rename_i rule hrule
    split_ifs at hreach
    · cases hreach.2
    · cases hreach.2
    · cases hreach.2
    · rw [Proc.reaches_map_call] at hreach
      rcases hreach with ⟨rfl, hrequest⟩ | ⟨answer, tail, -, -, ⟨⟩⟩
      cases hrequest
      exact ⟨rfl, rule, hrule, rfl⟩

/-- Under a rule that limits, an allowed call has had its script answered so. -/
theorem allow_result (hrule : limiter.rules scope = some rule) (hlimit : 0 < rule.limit)
    {result : Decision} (hreach : (allow limiter scope key).Reaches trace (.inr result))
    (hallowed : result.allowed = true) :
    ∃ answer, trace = [⟨.fixedWindow (bucketKey scope key) rule.windowMillis, answer⟩] ∧
      (decision rule answer).allowed = true := by
  simp only [allow, hrule, if_neg (not_le.mpr hlimit)] at hreach
  split_ifs at hreach
  · cases hreach.2
    cases hallowed
  · cases hreach.2
    cases hallowed
  · rw [Proc.reaches_map_result] at hreach
    obtain ⟨answer, hreach, rfl⟩ := hreach
    rcases hreach with ⟨-, ⟨⟩⟩ | ⟨found, tail, rfl, rfl, hpoint⟩
    cases hpoint
    exact ⟨answer, rfl, hallowed⟩

/-! ## Runs -/

variable {clock : ℤ} {mid s next : Config} {allowed : Config → Action → Prop}

theorem machine_exec {store after : Store} {request : Call} {choice : Choice}
    {answer : request.Reply}
    (hexec : (machine limiter).exec store request choice = some (answer, after)) :
    after.clock = store.clock ∧
      exec store.buckets store.clock request choice = some (answer, after.buckets) := by
  obtain ⟨⟨found, buckets⟩, hfound, heq⟩ := Option.map_eq_some_iff.mp hexec
  cases heq
  exact ⟨rfl, hfound⟩

/-- All calls on a bucket use the window of its scope's rule. -/
theorem window_of_call (hrule : limiter.rules scope = some rule) {op : Op} {request : Call}
    (hreach : ((machine limiter).program op).Reaches trace (.inl request)) {window : ℤ}
    (hrequest : request = .fixedWindow (bucketKey scope key) window) :
    window = rule.windowMillis := by
  obtain ⟨other, key'⟩ := op
  obtain ⟨-, found, hfound, rfl⟩ := allow_call hreach
  obtain ⟨hkey, rfl⟩ := Call.fixedWindow.inj hrequest
  obtain ⟨rfl, -⟩ := bucketKey_injective hkey
  rw [hrule] at hfound
  cases hfound
  rfl

theorem clock_le_of_act {action : Action} (hact : (machine limiter).act mid action = some s) :
    mid.store.clock ≤ s.store.clock := by
  rcases Machine.act_cases hact with ⟨elapsed, store, -, hstore, rfl⟩ | ⟨op, -, rfl⟩ |
    ⟨i, choice, request, rest, reply, store, -, -, hexec, rfl⟩
  · cases hstore
    exact le_add_of_nonneg_right (Int.natCast_nonneg _)
  · exact le_rfl
  · exact (machine_exec hexec).1.ge

theorem tracked_of_run (hrule : limiter.rules scope = some rule) (key : Bytes)
    (hrun : (machine limiter).Run allowed (start clock) s) :
    Tracked rule.windowMillis s.store.buckets (millis s.store.clock) (bucketKey scope key) := by
  refine hrun.induct (motive := fun s => Tracked rule.windowMillis s.store.buckets
    (millis s.store.clock) (bucketKey scope key)) .initial
    (tracked_empty _ _ _) ?_ ?_ ?_
  · intro s elapsed store _ htracked _ hstore
    cases hstore
    exact htracked.later (le_add_of_nonneg_right (Int.natCast_nonneg _))
  · intro s op _ htracked _
    exact htracked
  · intro s i op choice request reply store proc _ htracked _ _ _ hreach hexec
    obtain ⟨hclock, hexec⟩ := machine_exec hexec
    rw [Config.store_answer, hclock]
    exact htracked.exec (fun other hrequest => window_of_call hrule hreach hrequest) hexec

/-- The calls on a bucket whose script was answered between two states, such
that the call is allowed. -/
def answeredSince (rule : Rule) (bucket : Bytes) (mid s : Config) : Set ℕ :=
  {i | mid.trace i = [] ∧ ∃ answer, s.Did i (.fixedWindow bucket rule.windowMillis) answer ∧
    (decision rule answer).allowed = true}

/-- A hit whose count and time to live let a call pass. -/
def passes (rule : Rule) (found : Hit) : Bool :=
  (found.after.count : ℤ) ≤ rule.limit && found.time < found.after.expireAt

/-- On the way from `mid` to `s` there were the hits `recent` on the bucket, at
least one for each allowed call. -/
structure Segment (rule : Rule) (bucket : Bytes) (mid s : Config) (recent : List Hit) : Prop where
  hits : s.store.buckets.hits bucket = recent ++ mid.store.buckets.hits bucket
  later : ∀ found ∈ recent, millis mid.store.clock ≤ found.time
  calls : (answeredSince rule bucket mid s).encard ≤ (recent.filter (passes rule)).length

theorem answeredSince_self (bucket : Bytes) (s : Config) : answeredSince rule bucket s s = ∅ := by
  ext i
  simp only [answeredSince, Set.mem_ofPred_eq, Set.mem_empty_iff_false, iff_false]
  rintro ⟨htrace, answer, hdid, -⟩
  rw [Config.did_iff_mem_trace, htrace] at hdid
  cases hdid

/-- An answered call that is not allowed on the bucket adds no call. -/
theorem answeredSince_answer_subset {bucket : Bytes} {i : ℕ} {proc : Port Decision} {entry : Step}
    {store : Store} (hentry : ∀ answer, entry = ⟨.fixedWindow bucket rule.windowMillis, answer⟩ →
      (decision rule answer).allowed = false) :
    answeredSince rule bucket mid (s.answer i proc entry store) ⊆ answeredSince rule bucket mid s := by
  rintro j ⟨htrace, answer, hdid, hallowed⟩
  refine ⟨htrace, answer, ?_, hallowed⟩
  rcases Config.did_answer.mp hdid with hdid | ⟨-, heq⟩
  · exact hdid
  · rw [hentry answer heq.symm] at hallowed
    cases hallowed

theorem answeredSince_answer_insert (bucket : Bytes) (i : ℕ) (proc : Port Decision) (entry : Step)
    (store : Store) :
    answeredSince rule bucket mid (s.answer i proc entry store) ⊆
      insert i (answeredSince rule bucket mid s) := by
  rintro j ⟨htrace, answer, hdid, hallowed⟩
  rcases Config.did_answer.mp hdid with hdid | ⟨rfl, -⟩
  · exact .inr ⟨htrace, answer, hdid, hallowed⟩
  · exact .inl rfl

theorem Segment.answer {bucket : Bytes} {recent : List Hit} {i : ℕ} {choice : Choice}
    {request : Call} {answer : request.Reply} {store : Store} {proc : Port Decision}
    (hsegment : Segment rule bucket mid s recent) (hclock : mid.store.clock ≤ s.store.clock)
    (hexec : exec s.store.buckets s.store.clock request choice = some (answer, store.buckets)) :
    ∃ recent, Segment rule bucket mid (s.answer i proc ⟨request, answer⟩ store) recent := by
  have hlater : millis mid.store.clock ≤ millis s.store.clock :=
    millis_le_millis hclock
  obtain ⟨requested, window⟩ := request
  by_cases hpass : requested = bucket ∧ window = rule.windowMillis ∧
      (decision rule answer).allowed = true
  · -- an allowed call: one more call, one more hit that passes
    obtain ⟨rfl, rfl, hallowed⟩ := hpass
    obtain ⟨-, after, -, hhits, hlimit, hbefore⟩ := exec_allowed hexec hallowed
    refine ⟨⟨millis s.store.clock, after⟩ :: recent, ?_, ?_, ?_⟩
    · rw [Config.store_answer, hhits, hsegment.hits, List.cons_append]
    · rintro found (_ | ⟨_, hfound⟩)
      · exact hlater
      · exact hsegment.later found hfound
    · have hpasses : passes rule ⟨millis s.store.clock, after⟩ = true := by
        simp [passes, hlimit, hbefore]
      rw [List.filter_cons_of_pos hpasses, List.length_cons]
      calc (answeredSince rule requested mid _).encard
          ≤ (insert i (answeredSince rule requested mid s)).encard :=
            Set.encard_le_encard (answeredSince_answer_insert ..)
        _ ≤ (answeredSince rule requested mid s).encard + 1 := Set.encard_insert_le _ _
        _ ≤ ((recent.filter (passes rule)).length + 1 : ℕ) := by
            push_cast
            gcongr
            exact hsegment.calls
  · have hsubset : answeredSince rule bucket mid
        (s.answer i proc ⟨.fixedWindow requested window, answer⟩ store) ⊆
        answeredSince rule bucket mid s := by
      refine answeredSince_answer_subset fun found hfound => ?_
      cases hfound
      simpa using hpass
    have hcalls := (Set.encard_le_encard hsubset).trans hsegment.calls
    have hkey := exec_key hexec bucket
    cases hkey with
    | kept _ hcounter hhits =>
        exact ⟨recent, by rw [Config.store_answer, hhits, hsegment.hits], hsegment.later, hcalls⟩
    | hit _ hcounter hhits =>
        refine ⟨_ :: recent, by rw [Config.store_answer, hhits, hsegment.hits, List.cons_append],
          ?_, hcalls.trans ?_⟩
        · rintro found (_ | ⟨_, hfound⟩)
          · exact hlater
          · exact hsegment.later found hfound
        · exact_mod_cast (List.Sublist.filter _ (List.sublist_cons_self _ _)).length_le

theorem segment_of_run (rule : Rule) (bucket : Bytes) (hwf : (machine limiter).WellFormed mid)
    (hrun : (machine limiter).Run allowed mid s) :
    ∃ recent, Segment rule bucket mid s recent := by
  refine hrun.induct (motive := fun s => ∃ recent, Segment rule bucket mid s recent) hwf ?_ ?_ ?_ ?_
  · exact ⟨[], rfl, by simp, by simp [answeredSince_self]⟩
  · rintro s elapsed store _ ⟨recent, hsegment⟩ _ hstore
    cases hstore
    exact ⟨recent, hsegment.hits, hsegment.later, hsegment.calls⟩
  · rintro s op _ ⟨recent, hsegment⟩ _
    exact ⟨recent, hsegment.hits, hsegment.later, hsegment.calls⟩
  · rintro s i op choice request answer store proc hpast ⟨recent, hsegment⟩ _ _ _ _ hexec
    exact hsegment.answer (hpast.le_of_act (fun s => s.store.clock) clock_le_of_act)
      (machine_exec hexec).2

/-! ## Bounds -/

section

variable {bucket : Bytes} {recent : List Hit}

/-- The hits of a segment that pass, with what every hit satisfies. -/
theorem Segment.passing (hsegment : Segment rule bucket mid s recent)
    (htracked : Tracked rule.windowMillis s.store.buckets (millis s.store.clock) bucket)
    (hwindow : 1 ≤ rule.windowMillis) :
    (recent.filter (passes rule)).Pairwise (Follows rule.windowMillis) ∧
      ∀ found ∈ recent.filter (passes rule), found ∈ s.store.buckets.hits bucket ∧
        millis mid.store.clock ≤ found.time ∧ found.time ≤ millis s.store.clock ∧
        1 ≤ found.after.count ∧ found.after.count ≤ rule.limit.toNat ∧
        found.time < found.after.expireAt ∧
        found.after.expireAt ≤ found.time + rule.windowMillis := by
  have hsublist : recent.Sublist (s.store.buckets.hits bucket) := by
    rw [hsegment.hits]
    exact List.sublist_append_left _ _
  have hnonneg : 0 ≤ rule.windowMillis := by omega
  refine ⟨((htracked.history.pairwise hnonneg).sublist hsublist).filter _, ?_⟩
  intro found hfound
  obtain ⟨hrecent, hpasses⟩ := List.mem_filter.mp hfound
  have hmem := hsublist.subset hrecent
  obtain ⟨hcount, -, hexpire⟩ := htracked.history.bounds hnonneg hmem
  simp only [passes, Bool.and_eq_true, decide_eq_true_eq] at hpasses
  exact ⟨hmem, hsegment.later found hrecent, htracked.past found hmem, hcount, by omega, hpasses.2,
    hexpire⟩

theorem Segment.interval (hsegment : Segment rule bucket mid s recent)
    (htracked : Tracked rule.windowMillis s.store.buckets (millis s.store.clock) bucket)
    (hwindow : 1 ≤ rule.windowMillis)
    (hshort : s.store.clock - mid.store.clock < rule.windowMillis * millisecond) :
    (answeredSince rule bucket mid s).encard ≤ 2 * rule.limit.toNat := by
  obtain ⟨hpairwise, hhits⟩ := hsegment.passing htracked hwindow
  have hmillis : millis s.store.clock - millis mid.store.clock ≤ rule.windowMillis := by
    simp only [millis, millisecond] at hshort ⊢
    omega
  have hlength : (recent.filter (passes rule)).length ≤ 2 * rule.limit.toNat :=
    length_le_of_interval hpairwise (by omega) hmillis fun found hfound => (hhits found hfound).2
  exact hsegment.calls.trans (by exact_mod_cast hlength)

/-- If the oldest hit of a segment creates the counter, all its hits are of one
lifetime, as long as that lasts. -/
theorem Segment.lifetime {older : List Hit} {created : Hit}
    (hsegment : Segment rule bucket mid s (older ++ [created]))
    (htracked : Tracked rule.windowMillis s.store.buckets (millis s.store.clock) bucket)
    (hwindow : 1 ≤ rule.windowMillis) (halive : millis s.store.clock ≤ created.after.expireAt) :
    (answeredSince rule bucket mid s).encard ≤ rule.limit.toNat := by
  obtain ⟨hpairwise, hhits⟩ := hsegment.passing htracked hwindow
  have hlength : ((older ++ [created]).filter (passes rule)).length ≤ rule.limit.toNat := by
    refine length_le_of_lifetime hpairwise (by omega) created.after.expireAt fun found hfound => ?_
    obtain ⟨hmem, -, hpast, hcount, hlimit, -, hexpire⟩ := hhits found hfound
    refine ⟨?_, hcount, hlimit⟩
    rcases List.mem_append.mp (List.mem_filter.mp hfound).1 with holder | hcreated
    · have hall := htracked.history.pairwise (by omega : 0 ≤ rule.windowMillis)
      rw [hsegment.hits, List.append_assoc] at hall
      have hfollows := (List.pairwise_append.mp hall).2.2 found holder created (by simp)
      rcases hfollows.2 with ⟨hsame, -⟩ | hless
      · exact hsame
      · omega
    · rw [List.mem_singleton.mp hcreated]
  exact hsegment.calls.trans (by exact_mod_cast hlength)

/-- From a state without the bucket on, within its window. -/
theorem Segment.absent (hsegment : Segment rule bucket mid s recent)
    (htracked : Tracked rule.windowMillis s.store.buckets (millis s.store.clock) bucket)
    (hmid : Tracked rule.windowMillis mid.store.buckets (millis mid.store.clock) bucket)
    (hwindow : 1 ≤ rule.windowMillis) (habsent : mid.store.find bucket = none)
    (hshort : millis s.store.clock ≤ millis mid.store.clock + rule.windowMillis) :
    (answeredSince rule bucket mid s).encard ≤ rule.limit.toNat := by
  obtain ⟨hpairwise, hhits⟩ := hsegment.passing htracked hwindow
  have hhistory := htracked.history
  rw [hsegment.hits] at hhistory
  have hpast : ∀ found ∈ recent, found.time ≤ millis s.store.clock := fun found hfound =>
    htracked.past found (by rw [hsegment.hits]; exact List.mem_append_left _ hfound)
  obtain ⟨expireAt, hsame⟩ := hhistory.expireAt_of_absent (by omega) hmid.history
    (fun current hcurrent => Store.expired_of_find habsent hcurrent)
    (by omega : millis s.store.clock - millis mid.store.clock ≤ rule.windowMillis)
    fun found hfound => ⟨hsegment.later found hfound, hpast found hfound⟩
  have hlength : (recent.filter (passes rule)).length ≤ rule.limit.toNat := by
    refine length_le_of_lifetime hpairwise (by omega) expireAt fun found hfound => ?_
    obtain ⟨-, -, -, hcount, hlimit, -, -⟩ := hhits found hfound
    exact ⟨hsame found (List.mem_filter.mp hfound).1, hcount, hlimit⟩
  exact hsegment.calls.trans (by exact_mod_cast hlength)

end

/-- The step that brings a counter into being is a hit on its key. -/
theorem created_of_act {bucket : Bytes} {action : Action} {current : Counter}
    (hact : (machine limiter).act mid action = some next) (habsent : mid.store.find bucket = none)
    (hfound : next.store.find bucket = some current) :
    ∃ window, (∃ i choice, action = .advance i choice ∧
        mid.pending? i = some (.fixedWindow bucket window)) ∧
      current = ⟨1, millis mid.store.clock + window⟩ ∧
      next.store.buckets.hits bucket =
        ⟨millis mid.store.clock, current⟩ :: mid.store.buckets.hits bucket := by
  obtain ⟨hcurrent, halive⟩ := (next.store.find_eq_some_iff bucket current).mp hfound
  rcases Machine.act_cases hact with ⟨elapsed, store, -, hstore, rfl⟩ | ⟨op, -, rfl⟩ |
    ⟨i, choice, request, rest, answer, store, rfl, hproc, hexec, rfl⟩
  · cases hstore
    have hlater : millis mid.store.clock ≤ millis (mid.store.clock + elapsed) :=
      millis_le_millis (le_add_of_nonneg_right (Int.natCast_nonneg _))
    exact absurd (hlater.trans halive) (not_le.mpr (Store.expired_of_find habsent hcurrent))
  · exact absurd halive (not_le.mpr (Store.expired_of_find habsent hcurrent))
  · obtain ⟨hclock, hexec⟩ := machine_exec hexec
    rw [Config.store_answer] at hcurrent halive
    have hkey := exec_key hexec bucket
    cases hkey with
    | kept _ hcounter hhits =>
        rw [hcounter] at hcurrent
        rw [hclock] at halive
        exact absurd halive (not_le.mpr (Store.expired_of_find habsent hcurrent))
    | hit window hcounter hhits =>
        rw [hcounter, Option.some.injEq] at hcurrent
        refine ⟨window, ⟨i, choice, rfl, by rw [Config.pending?, hproc]⟩, ?_, ?_⟩
        · rw [← hcurrent]
          rcases hit_cases window (mid.store.buckets.counters bucket) (millis mid.store.clock) with
            ⟨earlier, hearlier, hthere, -⟩ | ⟨-, heq⟩
          · exact absurd hthere (not_le.mpr (Store.expired_of_find habsent hearlier))
          · exact heq
        · rw [Config.store_answer, hhits, hcurrent]

/-- The calls on a bucket that were answered between two states and allowed. -/
def allowedSince (scope : Scope) (key : Bytes) (mid s : Config) : Set ℕ :=
  {i | mid.trace i = [] ∧ ∃ result, s.Returned i (.allow scope key) result ∧
    result.allowed = true}

theorem allowedSince_subset (hrule : limiter.rules scope = some rule) (hlimit : 0 < rule.limit)
    (hwf : (machine limiter).WellFormed s) :
    allowedSince scope key mid s ⊆ answeredSince rule (bucketKey scope key) mid s := by
  rintro i ⟨htrace, result, hreturned, hallowed⟩
  obtain ⟨answer, hanswer, hallowed⟩ :=
    allow_result hrule hlimit (hwf.reaches_returned hreturned) hallowed
  exact ⟨htrace, answer, by rw [Config.did_iff_mem_trace, hanswer]; simp, hallowed⟩

/-- For every rule that limits, every key and every interleaving: during one
lifetime of the bucket at most `limit` calls are allowed; in any time shorter
than the window at most twice as many; and a call is allowed only if its script
ran and replied with a count within the limit and a positive time to live. -/
theorem fixed_window_bound (limiter : Limiter) (scope : Scope) (rule : Rule)
    (hrule : limiter.rules scope = some rule) (hlimit : 0 < rule.limit)
    (hwindow : 1 ≤ rule.windowMillis) (key : Bytes) (clock : ℤ) (s : Config)
    (hrun : (machine limiter).Run anyStep (start clock) s) :
    (∀ mid action created current, (machine limiter).Run anyStep (start clock) mid →
      mid.store.find (bucketKey scope key) = none →
      (machine limiter).act mid action = some created →
      created.store.find (bucketKey scope key) = some current →
      (machine limiter).Run anyStep created s → millis s.store.clock ≤ current.expireAt →
      current.expireAt = millis mid.store.clock + rule.windowMillis ∧
        (allowedSince scope key mid s).encard ≤ rule.limit.toNat) ∧
    (∀ mid, (machine limiter).Run anyStep (start clock) mid → (machine limiter).Run anyStep mid s →
      s.store.clock - mid.store.clock < rule.windowMillis * millisecond →
      (allowedSince scope key mid s).encard ≤ 2 * rule.limit.toNat) ∧
    ∀ i result, s.Returned i (.allow scope key) result → result.allowed = true →
      ∃ mid ran count ttl, (machine limiter).Run anyStep (start clock) mid ∧
        (machine limiter).act mid (.advance i .ok) = some ran ∧
        (machine limiter).Run anyStep ran s ∧
        ran.Did i (.fixedWindow (bucketKey scope key) rule.windowMillis)
          (.ok [.int count, .int ttl]) ∧
        1 ≤ count ∧ count ≤ rule.limit ∧ 0 < ttl := by
  have hwf := hrun.wellFormed .initial
  have htracked := tracked_of_run hrule key hrun
  refine ⟨?_, ?_, ?_⟩
  · intro mid action created current hmid habsent hact hfound hrest halive
    obtain ⟨window, ⟨i, choice, rfl, hpending⟩, rfl, hhits⟩ := created_of_act hact habsent hfound
    have hmidwf := hmid.wellFormed .initial
    obtain ⟨op, -, hreach⟩ := hmidwf.reaches_pending hpending
    obtain rfl := window_of_call hrule hreach rfl
    -- the hits since `mid` are those since the creation, and the creation
    obtain ⟨recent, hsegment⟩ := segment_of_run rule (bucketKey scope key) hmidwf
      ((Machine.Run.tail .refl trivial hact).trans hrest)
    obtain ⟨later, hlater⟩ := segment_of_run rule (bucketKey scope key)
      (hmidwf.act hact) hrest
    have hrecent : recent = later ++ [⟨millis mid.store.clock,
        ⟨1, millis mid.store.clock + rule.windowMillis⟩⟩] := by
      have hsame := hsegment.hits.symm.trans hlater.hits
      rw [hhits, List.append_cons] at hsame
      exact List.append_cancel_right hsame
    subst hrecent
    exact ⟨rfl, (Set.encard_le_encard (allowedSince_subset hrule hlimit hwf)).trans
      (hsegment.lifetime htracked hwindow halive)⟩
  · intro mid hmid hrest hshort
    obtain ⟨recent, hsegment⟩ :=
      segment_of_run rule (bucketKey scope key) (hmid.wellFormed .initial) hrest
    exact (Set.encard_le_encard (allowedSince_subset hrule hlimit hwf)).trans
      (hsegment.interval htracked hwindow hshort)
  · intro i result hreturned hallowed
    obtain ⟨answer, htrace, hallowed⟩ :=
      allow_result hrule hlimit (hwf.reaches_returned hreturned) hallowed
    obtain ⟨mid, choice, store, proc, hmid, -, -, hpending, hexec, hact, hrest⟩ :=
      hrun.at_entry [] _ [] (by simp [start, Config.initial, Config.trace]) htrace
    obtain ⟨count, ttl, rfl, hcount, hle, httl⟩ := (allowed_iff rule answer).mp hallowed
    obtain ⟨rfl, -⟩ := exec_allowed (machine_exec hexec).2 hallowed
    refine ⟨mid, _, count, ttl, hmid, hact, hrest, ?_, hcount, hle, httl⟩
    simp

/-- Three calls in one lifetime: the first is allowed, the second is denied by
the count, the third by an error although its script ran. -/
theorem fixed_window_bound_sample :
    ∃ mid created s, (machine Sample.limiter).Run anyStep (start 0) mid ∧
      (machine Sample.limiter).Run anyStep created s ∧
      s.Returned 0 (.allow .unlockIP Sample.key) ⟨true, 0⟩ ∧
      s.Returned 1 (.allow .unlockIP Sample.key) ⟨false, second⟩ ∧
      s.Returned 2 (.allow .unlockIP Sample.key) failClosedDecision ∧
      (allowedSince .unlockIP Sample.key mid s).encard ≤ 1 := by
  have hperform : ((machine Sample.limiter).perform (fun _ _ => true) (start 0)
      (List.replicate 3 (.invoke (.allow .unlockIP Sample.key)))).any (fun mid =>
        (mid.store.find (bucketKey .unlockIP Sample.key)).isNone &&
        ((machine Sample.limiter).act mid (.advance 0 .ok)).any fun created =>
          (created.store.find (bucketKey .unlockIP Sample.key)).any fun current =>
            ((machine Sample.limiter).perform (fun _ _ => true) created
              [.advance 1 .ok, .advance 2 (.fail true "i/o timeout")]).any fun s =>
                s.ops = List.replicate 3 (.allow .unlockIP Sample.key) &&
                s.result? 0 = some ⟨true, 0⟩ && s.result? 1 = some ⟨false, second⟩ &&
                s.result? 2 = some failClosedDecision &&
                millis s.store.clock ≤ current.expireAt) = true := by decide +kernel
  obtain ⟨mid, hmid, hobserved⟩ := Machine.exists_any_run hperform
  rw [Bool.and_eq_true, Option.any_eq_true] at hobserved
  obtain ⟨habsent, created, hact, hobserved⟩ := hobserved
  rw [Option.any_eq_true] at hobserved
  obtain ⟨current, hcurrent, hobserved⟩ := hobserved
  obtain ⟨s, hrest, hobserved⟩ := Machine.exists_any_run hobserved
  simp only [Bool.and_eq_true, decide_eq_true_eq] at hobserved
  obtain ⟨⟨⟨⟨hops, hfirst⟩, hsecond⟩, hthird⟩, halive⟩ := hobserved
  have hreturned : ∀ i < 3, ∀ result, s.result? i = some result →
      s.Returned i (.allow .unlockIP Sample.key) result := by
    intro i hi result hresult
    exact (s.returned_iff i _ _).mpr ⟨by rw [hops, List.getElem?_replicate, if_pos hi], hresult⟩
  have hbounds := fixed_window_bound Sample.limiter .unlockIP Sample.rule rfl (by decide) (by decide)
    Sample.key 0 s ((hmid.tail trivial hact).trans hrest)
  exact ⟨mid, created, s, hmid, hrest, hreturned 0 (by decide) _ hfirst,
    hreturned 1 (by decide) _ hsecond, hreturned 2 (by decide) _ hthird,
    (hbounds.1 mid _ created current hmid (Option.isNone_iff_eq_none.mp habsent) hact hcurrent hrest
      halive).2⟩

end SecurePastebin.Ratelimit
