import SecurePastebin.System.Provenance

/-!
# Views, events and releases

A `Read` that releases the content has opened the body, counted the view and
told the audit sink, in this order and each once.  Over any number of reads in
any interleaving this orders the four numbers at every moment.
-/

namespace SecurePastebin.System

open Text Uuid Paste Crypto
open SecurePastebin.Store Process Interleaving

variable {sys : Params} {s : Config} {i : ℕ} {id : UUID}

/-! ## The four numbers -/

/-- The event of a successful read of the paste. -/
def isView (id : UUID) (event : Event) : Bool :=
  (event.kind = .pasteViewed || event.kind = .pasteUnlockSuccess) && event.pasteId = some id

def isViewStep (id : UUID) (step : Step) : Bool := (eventOf step).any (isView id)

def isIncrement (id : UUID) : Step → Bool
  | ⟨.metasIncrementViews id', _⟩ => id' = id
  | _ => false

/-- A successful `Envelope.Open`. -/
def isOpening (id : UUID) : Step → Bool
  | ⟨.envelopeOpen id' _ _ _, .ok _⟩ => id' = id
  | _ => false

/-- Thread `i` is a `Read` of the paste that has returned its content. -/
def releases (s : Config) (id : UUID) (i : ℕ) : Bool :=
  match s.ops[i]?, s.result? i with
  | some (.read _ id' _), some (.read (.ok res)) => id' = id && res.content.isSome
  | _, _ => false

def released (s : Config) (id : UUID) : ℕ :=
  ((Finset.range s.ops.length).filter fun i => releases s id i = true).card

def recorded (s : Config) (id : UUID) : ℕ := (events s).countP (isView id)

/-- The reads of the paste for which `Envelope.Open` has succeeded. -/
def opened (s : Config) (id : UUID) : ℕ :=
  ((Finset.range s.ops.length).filter fun i => (s.trace i).any (isOpening id) = true).card

/-! ## One thread -/

section Thread

variable {op : Op} {front : List Step}

/-- Before it counts a view, a `Read` has opened the body. -/
theorem call_metasIncrementViews
    (hreach : (program sys op).Reaches front (.inl (.metasIncrementViews id))) :
    ∃ p password m now sealed rechecked plain time, op = .read p id password ∧
      front = readChecks id m now (.ok sealed) rechecked ++
        [⟨.envelopeOpen id m.expiresAt sealed password, .ok plain⟩] ++ [⟨.now, time⟩] := by
  have hmakes := makes_of_reaches hreach
  cases op with
  | read p id' password =>
      cases hmakes
      cases read_point sys.deps hreach.of_map with
      | missing _ _ _ hmissing =>
          cases hmissing with
          | recording hrecord => cases hrecord
      | wrongPassword _ _ _ hrecord =>
          cases hrecord
      | @releasing m now _ sealed rechecked _ _ plain rest _ hrelease =>
          cases hrelease with
          | views time htime =>
              exact ⟨p, password, m, now, sealed, rechecked, plain, time, rfl, rfl⟩
          | recording _ _ hrecord => cases hrecord
  | _ => cases hmakes

/-- Before its event, a `Read` has counted the view; the kind of the event is
that of the row it has read. -/
theorem call_view {event : Event} (hview : isView id event = true)
    (hreach : (program sys op).Reaches front (.inl (.auditRecord event))) :
    ∃ p password m now sealed rechecked plain time views counted last,
      op = .read p id password ∧ event.kind = viewKind m ∧
      front = readChecks id m now (.ok sealed) rechecked ++
        [⟨.envelopeOpen id m.expiresAt sealed password, .ok plain⟩] ++
        (releaseChecks id time views counted ++ [⟨.now, last⟩]) := by
  have hmakes := makes_of_reaches hreach
  simp only [isView, Bool.and_eq_true, Bool.or_eq_true, decide_eq_true_eq] at hview
  obtain ⟨hkind, hid⟩ := hview
  cases op with
  | read p id' password =>
      obtain rfl : id' = id := Option.some.inj (hmakes.1.symm.trans hid)
      cases read_point sys.deps hreach.of_map with
      | missing _ _ _ hmissing =>
          cases hmissing with
          | recording hrecord =>
              cases hrecord
              rcases hkind with hkind | hkind <;> cases hkind
      | wrongPassword _ _ _ hrecord =>
          cases hrecord
          rcases hkind with hkind | hkind <;> cases hkind
      | @releasing m now _ sealed rechecked _ _ plain rest _ hrelease =>
          cases hrelease with
          | @recording time _ views counted _ _ _ hrecord =>
              cases hrecord with
              | event haudit last =>
                  exact ⟨p, password, m, now, sealed, rechecked, plain, time, views, counted, last,
                    rfl, rfl, rfl⟩
  | create | verify => rcases hkind with hkind | hkind <;> cases hkind.symm.trans hmakes
  | delete p id' => rcases hkind with hkind | hkind <;> cases hkind.symm.trans hmakes.2
  | sweep => rcases hkind with hkind | hkind <;> simp [Makes, SweepMakes, hkind] at hmakes
  | _ => cases hmakes

end Thread

theorem isViewStep_iff {step : Step} :
    isViewStep id step = true ↔ ∃ event, step = ⟨.auditRecord event, ()⟩ ∧ isView id event = true := by
  simp [isViewStep, Option.any_eq_true, eventOf_eq_some_iff]

theorem isIncrement_iff {step : Step} :
    isIncrement id step = true ↔ ∃ reply, step = ⟨.metasIncrementViews id, reply⟩ := by
  unfold isIncrement
  split
  · rename_i id' reply
    rw [decide_eq_true_eq]
    constructor
    · rintro rfl
      exact ⟨reply, rfl⟩
    · rintro ⟨_, ⟨⟩⟩
      rfl
  · rename_i hother
    refine iff_of_false nofun ?_
    rintro ⟨reply, rfl⟩
    exact hother id reply rfl

theorem isOpening_iff {step : Step} :
    isOpening id step = true ↔ ∃ expiresAt record password plain,
      step = ⟨.envelopeOpen id expiresAt record password, .ok plain⟩ := by
  unfold isOpening
  split
  · rename_i id' expiresAt record password plain
    rw [decide_eq_true_eq]
    constructor
    · rintro rfl
      exact ⟨expiresAt, record, password, plain, rfl⟩
    · rintro ⟨_, _, _, _, ⟨⟩⟩
      rfl
  · rename_i hother
    refine iff_of_false nofun ?_
    rintro ⟨expiresAt, record, password, plain, rfl⟩
    exact hother id expiresAt record password plain rfl

/-- Where the three calls stand in the trace of a thread, and what stands before
them. -/
theorem opening_place (hwf : (machine sys).WellFormed s) {front back : List Step} {step : Step}
    (htrace : s.trace i = front ++ step :: back) (hopening : isOpening id step = true) :
    front.length = 4 := by
  obtain ⟨op, -, hreach⟩ := hwf.reaches_of_trace htrace
  obtain ⟨expiresAt, record, password, plain, rfl⟩ := isOpening_iff.mp hopening
  obtain ⟨p, m, now, rechecked, -, -, -, rfl⟩ := call_envelopeOpen hreach
  rfl

theorem increment_place (hwf : (machine sys).WellFormed s) {front back : List Step} {step : Step}
    (htrace : s.trace i = front ++ step :: back) (hincrement : isIncrement id step = true) :
    front.length = 6 ∧ ∃ step ∈ s.trace i, isOpening id step = true := by
  obtain ⟨op, -, hreach⟩ := hwf.reaches_of_trace htrace
  obtain ⟨reply, rfl⟩ := isIncrement_iff.mp hincrement
  obtain ⟨p, password, m, now, sealed, rechecked, plain, time, -, rfl⟩ :=
    call_metasIncrementViews hreach
  refine ⟨rfl, ⟨.envelopeOpen id m.expiresAt sealed password, .ok plain⟩, ?_, ?_⟩
  · simp [htrace]
  · simp [isOpening]

theorem view_place (hwf : (machine sys).WellFormed s) {front back : List Step} {step : Step}
    (htrace : s.trace i = front ++ step :: back) (hview : isViewStep id step = true) :
    front.length = 9 ∧ ∃ step ∈ s.trace i, isIncrement id step = true := by
  obtain ⟨op, -, hreach⟩ := hwf.reaches_of_trace htrace
  obtain ⟨event, rfl, hevent⟩ := isViewStep_iff.mp hview
  obtain ⟨p, password, m, now, sealed, rechecked, plain, time, views, counted, last, -, -, rfl⟩ :=
    call_view hevent hreach
  refine ⟨rfl, ⟨.metasIncrementViews id, views⟩, ?_, ?_⟩
  · simp [htrace, releaseChecks]
  · simp [isIncrement]

/-- A thread contributes at most one to each number, and to none before the one
that comes first. -/
theorem thread_counts (hwf : (machine sys).WellFormed s) (id : UUID) (i : ℕ) :
    (s.trace i).countP (isViewStep id) ≤ (s.trace i).countP (isIncrement id) ∧
      (s.trace i).countP (isIncrement id) ≤ (s.trace i).countP (isOpening id) ∧
      (s.trace i).countP (isOpening id) ≤ 1 := by
  have hview : (s.trace i).countP (isViewStep id) ≤ 1 :=
    Machine.countP_le_one 9 fun front step back htrace hstep => (view_place hwf htrace hstep).1
  have hincrement : (s.trace i).countP (isIncrement id) ≤ 1 :=
    Machine.countP_le_one 6 fun front step back htrace hstep => (increment_place hwf htrace hstep).1
  refine ⟨Machine.countP_le_of_mem hview ?_, Machine.countP_le_of_mem hincrement ?_,
    Machine.countP_le_one 4 fun front step back htrace hstep => opening_place hwf htrace hstep⟩
  · rintro ⟨step, hmem, hstep⟩
    obtain ⟨front, back, htrace⟩ := List.append_of_mem hmem
    exact (view_place hwf htrace hstep).2
  · rintro ⟨step, hmem, hstep⟩
    obtain ⟨front, back, htrace⟩ := List.append_of_mem hmem
    exact (increment_place hwf htrace hstep).2

theorem isView_viewKind (m : PasteMeta) {time : ℤ} {actor : Option UUID} {outcome : Outcome}
    {details : List (String × Detail)} :
    isView id ⟨time, viewKind m, actor, some id, outcome, details⟩ = true := by
  simp only [isView, viewKind]
  split <;> simp

/-- A `Read` that has returned the content has recorded its event. -/
theorem view_of_releases (haudit : sys.hasAudit = true) (hwf : (machine sys).WellFormed s)
    (hreleases : releases s id i = true) : 1 ≤ (s.trace i).countP (isViewStep id) := by
  unfold releases at hreleases
  split at hreleases
  · rename_i p id' password res hop hresult
    simp only [Bool.and_eq_true, decide_eq_true_eq, Option.isSome_iff_exists] at hreleases
    obtain ⟨rfl, content, hcontent⟩ := hreleases
    have hreturned := (s.returned_iff i _ _).mpr ⟨hop, hresult⟩
    obtain ⟨value, hreach, ⟨⟩⟩ :=
      Proc.reaches_map_result.mp (hwf.reaches_returned hreturned)
    obtain ⟨m, now, sealed, rechecked, time, views, counted, rest, recorded, htrace, -, -, -,
      hrecord, -⟩ := read_content_trace sys.deps hreach hcontent
    cases hrecord with
    | skipped hskipped => cases haudit.symm.trans hskipped
    | done _ last =>
        let event : Event := ⟨last, viewKind m, actorOf p, some id', .success, []⟩
        have hmem : (⟨.auditRecord event, ()⟩ : Step) ∈ s.trace i := by
          rw [htrace]
          simp [event]
        exact List.countP_pos_iff.mpr
          ⟨_, hmem, isViewStep_iff.mpr ⟨event, rfl, isView_viewKind m⟩⟩
  · cases hreleases

/-! ## The counter -/

/-- An increment that was executed. -/
def isCounted (id : UUID) : Step → Bool
  | ⟨.metasIncrementViews id', .ok _⟩ => id' = id
  | _ => false

/-- No increment is lost: the counter of a row is the number of those that were
executed. -/
def ViewsCounted (s : Config) : Prop :=
  ∀ id m, s.store.pastes.find id = some m →
    m.viewCount = s.log.countP fun entry => isCounted id entry.2

section Counter

variable {op : Op} {request : Call} {reply : request.Reply} {store : Store} {choice : Choice}
  {proc : Port Result}

theorem exec_incrementViews {reply : Except Err Unit}
    (hexec : exec sys.prims s.store (.metasIncrementViews id) choice = some (reply, store))
    (hreply : reply = .ok ()) : s.store.pastes.incrementViews id = .ok store.pastes := by
  subst hreply
  cases choice with
  | ok =>
      rcases Store.writePastes_cases (Option.some.inj hexec) with
        ⟨err, -, ⟨⟩, -⟩ | ⟨⟨⟩, pastes, hviews, -, rfl⟩
      cases hresult : s.store.pastes.incrementViews id with
      | error err => simp [hresult, Except.map] at hviews
      | ok next =>
          rw [hresult] at hviews
          cases hviews
          rfl
  | _ => cases hexec

/-- What is not an increment leaves the counter of a row that stays. -/
theorem PastesStep.viewCount {step : Step} {before : Store} {pastes : Pastes} {m' : PasteMeta}
    (hstep : PastesStep before step pastes)
    (hother : ∀ id, step ≠ ⟨.metasIncrementViews id, .ok ()⟩) (hfind : pastes.find id = some m') :
    (∃ m, RowInserted before step id m' m) ∨
      ∃ m, before.pastes.find id = some m ∧ m'.viewCount = m.viewCount := by
  cases hstep with
  | create m _ hcreate =>
      obtain ⟨-, -, hfresh, hnext⟩ := Pastes.create_eq_ok hcreate
      rw [hnext] at hfind
      split at hfind
      · rename_i hid
        cases hfind
        exact .inl ⟨m, rfl, hid.symm, hid ▸ hfresh, rfl⟩
      · exact .inr ⟨m', hfind, rfl⟩
  | views id' _ hviews => exact absurd rfl (hother id')
  | markDeleted id' byUser time =>
      rw [Pastes.find_markDeleted, Option.map_eq_some_iff] at hfind
      obtain ⟨m, hm, rfl⟩ := hfind
      exact .inr ⟨m, hm, by split <;> rfl⟩
  | markExpiredAudited ids time =>
      rw [Pastes.find_markExpiredAudited, Option.map_eq_some_iff] at hfind
      obtain ⟨m, hm, rfl⟩ := hfind
      exact .inr ⟨m, hm, by split <;> rfl⟩
  | purgeOlderThan cutoff count =>
      rw [Pastes.purgeOlderThan, Pastes.find_purge, Option.filter_eq_some_iff] at hfind
      exact .inr ⟨m', hfind.1, rfl⟩
  | purgeCompletedOlderThan cutoff count =>
      rw [Pastes.purgeCompletedOlderThan, Pastes.find_purge, Option.filter_eq_some_iff] at hfind
      exact .inr ⟨m', hfind.1, rfl⟩
  | other => exact .inr ⟨m', hfind, rfl⟩

/-- A paste is not counted before it is listed. -/
theorem listed_of_counted (hwf : (machine sys).WellFormed s) (hprov : Provenance sys s)
    {reply : Except Err Unit} (hdid : s.Did i (.metasIncrementViews id) reply) :
    ∃ j c, Listed sys s j c ∧ c.id = id := by
  obtain ⟨op, front, back, -, htrace, hreach⟩ := hwf.reaches_of_did hdid
  obtain ⟨p, password, m, now, sealed, rechecked, plain, time, -, rfl⟩ :=
    call_metasIncrementViews hreach
  have hget : s.Did i (.metasGet id) (.ok m) :=
    Config.did_of_trace htrace (by simp [readChecks])
  obtain ⟨j, c, hlisted, hid, -⟩ := hprov.row_got i id m hget
  exact ⟨j, c, hlisted, hid⟩

theorem isCounted_iff {step : Step} :
    isCounted id step = true ↔ step = ⟨.metasIncrementViews id, .ok ()⟩ := by
  unfold isCounted
  split
  · rename_i id' _
    rw [decide_eq_true_eq]
    constructor
    · rintro rfl
      rfl
    · rintro ⟨⟩
      rfl
  · rename_i hother
    refine iff_of_false nofun ?_
    rintro rfl
    exact hother id () rfl

theorem ViewsCounted.answer (hcounted : ViewsCounted s) (hwf : (machine sys).WellFormed s)
    (hprov : Provenance sys s) (hreach : (program sys op).Reaches (s.trace i) (.inl request))
    (hexec : exec sys.prims s.store request choice = some (reply, store)) :
    ViewsCounted (s.answer i proc ⟨request, reply⟩ store) := by
  intro id m' hfind
  rw [Config.store_answer] at hfind
  rw [Config.log_answer, List.countP_append, List.countP_singleton]
  by_cases hincrement : ∃ id', (⟨request, reply⟩ : Step) = ⟨.metasIncrementViews id', .ok ()⟩
  · obtain ⟨id', hstep⟩ := hincrement
    cases hstep
    rw [Pastes.find_incrementViews (exec_incrementViews hexec rfl), Option.map_eq_some_iff] at hfind
    obtain ⟨m, hm, rfl⟩ := hfind
    have hid : m.id = id := Table.key_of_find hm
    rw [← hcounted id m hm, hid]
    by_cases heq : id = id'
    · simp [heq, isCounted]
    · simp [heq, isCounted, Ne.symm heq]
  · rw [not_exists] at hincrement
    have hnot : isCounted id ⟨request, reply⟩ = false := by
      rw [← Bool.not_eq_true, isCounted_iff]
      exact hincrement id
    rw [hnot]
    rcases (exec_pastes hexec).viewCount hincrement hfind with ⟨m, hinserted⟩ | ⟨m, hm, hsame⟩
    · -- a new row starts at zero, and nobody has counted a view of it yet
      have hnone : s.log.countP (fun entry => isCounted id entry.2) = 0 := by
        rw [List.countP_eq_zero]
        rintro ⟨j, step⟩ hmem hstep
        rw [isCounted_iff] at hstep
        subst hstep
        obtain ⟨k, c, hlisted, hid⟩ := listed_of_counted hwf hprov hmem
        cases hinserted.step_eq
        exact hprov.insert_once hreach hlisted (hid.trans hinserted.id_eq.symm)
      cases hinserted.step_eq
      obtain ⟨c, -, -, -, -, rfl⟩ := call_metasCreate hreach
      rw [hnone, hinserted.row_eq, c.info_eq sys]
      rfl
    · rw [hsame, hcounted id m hm]
      rfl

end Counter

theorem viewsCounted_of_run {allowed : Config → Action → Prop} {clock : ℤ} {E : Envelope}
    (hrun : (machine sys).Run allowed (.initial (.empty clock E)) s) :
    ViewsCounted s := by
  refine hrun.induct .initial ?_ ?_ ?_ ?_
  · intro id m hfind
    cases hfind
  · intro s change store _ hcounted _ henv
    cases change <;> cases henv <;> exact hcounted
  · intro s op _ hcounted _
    exact hcounted
  · intro s i op choice request reply store proc hpast hcounted _ _ _ hreach hexec
    exact hcounted.answer (hpast.wellFormed .initial)
      (provenance_of_run hpast) hreach hexec

/-! ## All threads -/

/-- With a sink, while no increment of the paste has failed and its row is there:
the reads that released the content, the events, the counter and the openings
are ordered, the counter is the number of increments, no read contributes twice,
and the kind of every event is that of the row. -/
theorem views_ordered (sys : Params) (haudit : sys.hasAudit = true) (clock : ℤ) (E : Envelope)
    (s : Config)
    (hrun : (machine sys).Run (fun _ _ => True) (.initial (.empty clock E)) s)
    (id : UUID) (m : PasteMeta) (hrow : s.store.pastes.find id = some m)
    (hviews : ∀ i err, ¬ s.Did i (.metasIncrementViews id) (.error err)) :
    released s id ≤ recorded s id ∧ recorded s id ≤ m.viewCount ∧ m.viewCount ≤ opened s id ∧
      m.viewCount = s.log.countP (fun entry => isIncrement id entry.2) ∧
      (∀ i, (s.trace i).countP (isViewStep id) ≤ 1 ∧ (s.trace i).countP (isIncrement id) ≤ 1 ∧
        (s.trace i).countP (isOpening id) ≤ 1) ∧
      ∀ event ∈ events s, isView id event = true →
        (event.kind = .pasteUnlockSuccess ↔ m.passwordProtected = true) := by
  have hwf := hrun.wellFormed .initial
  have hprov := provenance_of_run hrun
  have hrecorded : recorded s id = s.log.countP fun entry => isViewStep id entry.2 :=
    countP_events s (isView id)
  have hcount : m.viewCount = s.log.countP (fun entry => isIncrement id entry.2) := by
    rw [viewsCounted_of_run hrun id m hrow]
    refine List.countP_congr ?_
    rintro ⟨i, step⟩ hmem
    rw [isCounted_iff, isIncrement_iff]
    constructor
    · rintro rfl
      exact ⟨_, rfl⟩
    · rintro ⟨err | ⟨⟩, rfl⟩
      · exact absurd hmem (hviews i err)
      · rfl
  refine ⟨?_, ?_, ?_, hcount, ?_, ?_⟩
  · rw [hrecorded, hwf.countP_log, released, Finset.card_filter]
    refine Finset.sum_le_sum fun i _ => ?_
    split
    · rename_i hreleases
      exact view_of_releases haudit hwf hreleases
    · exact Nat.zero_le _
  · rw [hrecorded, hcount, hwf.countP_log, hwf.countP_log]
    exact Finset.sum_le_sum fun i _ => (thread_counts hwf id i).1
  · rw [hcount, hwf.countP_log, opened, Finset.card_filter]
    refine Finset.sum_le_sum fun i _ => ?_
    obtain ⟨-, hle, hone⟩ := thread_counts hwf id i
    split
    · omega
    · rename_i hnone
      have hzero : (s.trace i).countP (isOpening id) = 0 := by
        rw [List.countP_eq_zero]
        intro step hmem hstep
        exact hnone (List.any_eq_true.mpr ⟨step, hmem, hstep⟩)
      omega
  · intro i
    have hcounts := thread_counts hwf id i
    omega
  · intro event hmem hevent
    obtain ⟨i, hdid⟩ := mem_events.mp hmem
    obtain ⟨op, front, back, -, htrace, hreach⟩ := hwf.reaches_of_did hdid
    obtain ⟨p, password, found, now, sealed, rechecked, plain, time, views, counted, last, -, hkind,
      rfl⟩ := call_view hevent hreach
    have hget : s.Did i (.metasGet id) (.ok found) :=
      Config.did_of_trace htrace (by simp [readChecks])
    have hprotected : found.passwordProtected = m.passwordProtected :=
      field_of_core PasteMeta.passwordProtected (fun _ => rfl)
        (hprov.core_eq (hprov.row_got i id found hget) (hprov.row id m hrow))
    rw [hkind, viewKind, ← hprotected]
    split <;> simp_all

/-- The step is not a count that failed. -/
def Sample.countsViews : Step → Bool
  | ⟨.metasIncrementViews _, .error _⟩ => false
  | _ => true

/-- The sample paste is created and read. -/
theorem views_ordered_sample :
    ∃ s m, (machine Sample.params).Run (fun _ _ => True) Sample.start s ∧
      s.store.pastes.find Sample.id = some m ∧ released s Sample.id = 1 ∧ 1 ≤ m.viewCount ∧
      m.viewCount ≤ opened s Sample.id := by
  have hperform : ((machine Sample.params).perform (fun _ _ => true) Sample.start
      (Sample.creating ++ .invoke (.read none Sample.id []) :: Sample.calls 1 4 ++
        [.advance 1 (.opening .granted)] ++ Sample.calls 1 6)).any (fun s =>
      (s.store.pastes.find Sample.id).isSome && decide (released s Sample.id = 1) &&
      s.log.all fun entry => Sample.countsViews entry.2) = true := by decide +kernel
  obtain ⟨s, hrun, hs⟩ := Machine.exists_any_run hperform
  simp only [Bool.and_eq_true, decide_eq_true_eq, Option.isSome_iff_exists] at hs
  obtain ⟨⟨⟨m, hrow⟩, hreleased⟩, hviews⟩ := hs
  obtain ⟨hfirst, hsecond, hthird, -⟩ := views_ordered Sample.params rfl 0 Crypto.Sample.envelope s
    hrun Sample.id m hrow (fun i err hdid => by cases List.all_eq_true.mp hviews _ hdid)
  exact ⟨s, m, hrun, hrow, hreleased, by omega, hthird⟩

end SecurePastebin.System
