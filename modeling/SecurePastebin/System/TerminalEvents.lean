import SecurePastebin.System.Marks

/-!
# The end of a paste is recorded once

A `Delete` checks the row before it removes the body and marks the row, and a
sweeper pass lists rows before it audits and marks them.  As long as no two of
these overlap on one paste, its end is recorded at most once and its row carries
at most one of the two marks.  Two overlapping `Delete`s, or a `Delete` that a
pass overtakes, both record.
-/

namespace SecurePastebin.System

open Text Uuid Paste Crypto
open SecurePastebin.Store Process Interleaving

variable {sys : Params} {s next : Config} {i j k : ℕ} {id : UUID} {clock : ℤ} {E : Envelope}
  {allowed : Config → Action → Prop}

/-! ## Orderly runs -/

/-- There is one sweeper: a pass starts after the earlier ones have returned. -/
def sweepsApart (s : Config) : Action → Bool
  | .invoke .sweep =>
      (List.range s.ops.length).all fun k => s.ops[k]? ≠ some .sweep || (s.result? k).isSome
  | _ => true

def isMarkDeleted : Step → Bool
  | ⟨.metasMarkDeleted .., _⟩ => true
  | _ => false

/-- A `Delete` of the paste has looked at its row and has neither marked it nor
returned. -/
def inFlight (s : Config) (id : UUID) (k : ℕ) : Bool :=
  (match s.ops[k]? with
    | some (.delete _ id') => id' = id
    | _ => false) &&
    !(s.trace k).isEmpty && (s.result? k).isNone && !(s.trace k).any isMarkDeleted

/-- A `Delete` looks at a row, and a pass lists it, only while no `Delete` of
that paste is in flight. -/
def deletesApart (s : Config) : Action → Bool
  | .advance i _ =>
      match s.ops[i]?, s.pending? i with
      | some (.delete _ id), some (.metasGet _) =>
          (List.range s.ops.length).all fun k => !inFlight s id k
      | some .sweep, some (.metasListExpiredUnaudited time limit) =>
          (s.store.pastes.listExpiredUnaudited time limit).all fun m =>
            (List.range s.ops.length).all fun k => !inFlight s m.id k
      | _, _ => true
  | _ => true

/-! ## Replies without failures -/

/-- The writes of a `Delete` and of a pass, and its listing, went through. -/
def Steady : Step → Prop
  | ⟨.bodiesDelete _, .error _⟩ => False
  | ⟨.metasMarkDeleted .., .error _⟩ => False
  | ⟨.metasListExpiredUnaudited .., .error _⟩ => False
  | ⟨.metasMarkExpiredAudited .., .error _⟩ => False
  | _ => True

theorem steady_of_exec {request : Call} {reply : request.Reply} {store : Store} {choice : Choice}
    (hnofail : NoFailure (.advance i choice))
    (hexec : exec sys.prims s.store request choice = some (reply, store)) :
    Steady ⟨request, reply⟩ := by
  cases request with
  | bodiesDelete id =>
      cases exec_of_noFailure hnofail rfl hexec
      trivial
  | metasMarkDeleted id byUser time =>
      cases exec_of_noFailure hnofail rfl hexec
      trivial
  | metasListExpiredUnaudited time limit =>
      cases exec_of_noFailure hnofail rfl hexec
      trivial
  | metasMarkExpiredAudited ids time =>
      cases exec_of_noFailure hnofail rfl hexec
      trivial
  | _ => trivial

theorem steady_of_run (hnofail : ∀ s action, allowed s action → NoFailure action)
    (hrun : (machine sys).Run allowed (.initial (.empty clock E)) s) :
    ∀ step ∈ s.trace k, Steady step := by
  refine hrun.induct (motive := fun s => ∀ step ∈ s.trace k, Steady step)
    .initial ?_ ?_ ?_ ?_
  · intro step hmem
    cases hmem
  · intro s change store _ hsteady _ _
    exact hsteady
  · intro s op _ hsteady _
    exact hsteady
  · intro s i op choice request reply store proc _ hsteady hallowed _ _ _ hexec step hmem
    by_cases hki : k = i
    · subst hki
      rw [Config.trace_answer_self, List.mem_append, List.mem_singleton] at hmem
      rcases hmem with hmem | rfl
      · exact hsteady step hmem
      · exact steady_of_exec (hnofail s _ hallowed) hexec
    · rw [Config.trace_answer_of_ne s hki] at hmem
      exact hsteady step hmem

/-! ## Who ends a paste -/

/-- The `Delete` has found the row undeleted, may delete it, and has not found
it expired. -/
def Deleting (s : Config) (k : ℕ) (id : UUID) : Prop :=
  ∃ p m rest, s.ops[k]? = some (.delete p id) ∧ MayDelete p m ∧ m.deletedAt = none ∧
    s.trace k = ⟨.metasGet id, .ok m⟩ :: rest ∧
    ∀ time : ℤ, rest.head? = some ⟨.now, time⟩ → time < m.expiresAt

/-- It has also read the clock. -/
def Checked (s : Config) (k : ℕ) (id : UUID) : Prop :=
  ∃ p m now rest, s.ops[k]? = some (.delete p id) ∧ MayDelete p m ∧ m.status now = .active ∧
    s.trace k = deleteChecks id m now ++ rest

/-- The pass has listed the paste. -/
def Sweeping (s : Config) (k : ℕ) (id : UUID) : Prop :=
  s.ops[k]? = some .sweep ∧ ∃ time limit rows,
    s.Did k (.metasListExpiredUnaudited time limit) (.ok rows) ∧ ∃ m ∈ rows, m.id = id

theorem Checked.deleting (hchecked : Checked s k id) : Deleting s k id := by
  obtain ⟨p, m, now, rest, hop, hmay, hstatus, htrace⟩ := hchecked
  obtain ⟨hdeleted, hlive⟩ := (m.status_eq_active_iff now).mp hstatus
  refine ⟨p, m, ⟨.now, now⟩ :: rest, hop, hmay, hdeleted, htrace, ?_⟩
  intro time htime
  cases htime
  exact hlive

/-- A marking `Delete` has checked. -/
theorem checked_of_markDeleted (hwf : (machine sys).WellFormed s) {byUser : UUID} {time : ℤ}
    {reply : Except Err Unit} (hdid : s.Did k (.metasMarkDeleted id byUser time) reply) :
    Checked s k id := by
  obtain ⟨op, front, back, hop, htrace, hreach⟩ := hwf.reaches_of_did hdid
  obtain ⟨p, m, rfl, hmay, hstatus, -, rfl⟩ := call_metasMarkDeleted hreach
  exact ⟨p, m, time, _, hop, hmay, hstatus, htrace.trans (List.append_assoc ..)⟩

/-- A `Delete` that goes ahead and is not in flight any more has marked the
row. -/
theorem Deleting.marked (hdeleting : Deleting s k id) (hwf : (machine sys).WellFormed s)
    (hsteady : ∀ step ∈ s.trace k, Steady step) (hflight : inFlight s id k = false) :
    ∃ byUser time, s.Did k (.metasMarkDeleted id byUser time) (.ok ()) := by
  obtain ⟨p, m, rest, hop, hmay, hdeleted, htrace, hlive⟩ := hdeleting
  cases hmark : (s.trace k).any isMarkDeleted with
  | true =>
      obtain ⟨step, hmem, hstep⟩ := List.any_eq_true.mp hmark
      unfold isMarkDeleted at hstep
      split at hstep
      · rename_i id' byUser time reply
        have hdid := (s.did_iff_mem_trace k _ _).mpr hmem
        obtain ⟨op, front, back, hop', -, hreach⟩ := hwf.reaches_of_did hdid
        obtain ⟨p', m', rfl, -⟩ := call_metasMarkDeleted hreach
        cases hop.symm.trans hop'
        rcases reply with err | ⟨⟨⟩⟩
        · exact (hsteady _ hmem).elim
        · exact ⟨byUser, time, hdid⟩
      · cases hstep
  | false =>
      -- then it has returned, and every way to return is excluded
      have hstarted : (s.trace k).isEmpty = false := by
        rw [htrace]
        rfl
      have hresult : (s.result? k).isSome := by
        simpa [inFlight, hop, hstarted, hmark, Option.isSome_iff_ne_none] using hflight
      obtain ⟨result, hresult⟩ := Option.isSome_iff_exists.mp hresult
      have hreturned := (s.returned_iff k _ _).mpr ⟨hop, hresult⟩
      obtain ⟨value, hreach, -⟩ :=
        Proc.reaches_map_result.mp (hwf.reaches_returned hreturned)
      exfalso
      rw [htrace] at hreach hsteady hmark
      generalize hwhole : (⟨.metasGet id, .ok m⟩ :: rest : List Step) = trace at *
      cases delete_point sys.deps hreach with
      | failed err => cases hwhole
      | forbidden m' hdenied =>
          cases hwhole
          exact hdenied hmay
      | settled m' now hmay' hstatus =>
          cases hwhole
          exact hstatus ((m.status_eq_active_iff now).mpr ⟨hdeleted, hlive now rfl⟩)
      | removeFailed m' now hmay' hstatus err =>
          exact hsteady ⟨.bodiesDelete id, .error err⟩ (by simp)
      | markFailed m' now hmay' hstatus err =>
          exact hsteady ⟨.metasMarkDeleted id p.userId now, .error err⟩ (by simp)
      | done m' now hmay' hstatus rest' hrecord => simp [isMarkDeleted, deleteChecks] at hmark

/-- A pass that has returned has marked what it listed. -/
theorem Sweeping.marked (hsweeping : Sweeping s k id) (hwf : (machine sys).WellFormed s)
    (hsteady : ∀ step ∈ s.trace k, Steady step) (hresult : (s.result? k).isSome) :
    ∃ ids time, id ∈ ids ∧ s.Did k (.metasMarkExpiredAudited ids time) (.ok ()) := by
  obtain ⟨hop, time, limit, rows, hdid, m, hmem, rfl⟩ := hsweeping
  obtain ⟨result, hresult⟩ := Option.isSome_iff_exists.mp hresult
  have hreturned := (s.returned_iff k _ _).mpr ⟨hop, hresult⟩
  obtain ⟨value, hreach, -⟩ :=
    Proc.reaches_map_result.mp (hwf.reaches_returned hreturned)
  obtain ⟨op, front, back, -, htrace, hlist⟩ := hwf.reaches_of_did hdid
  obtain ⟨-, rfl, -⟩ := call_metasListExpiredUnaudited hlist
  rcases Sweeper.runOnce_result hreach with ⟨_, _, hfailed⟩ | ⟨_, _, hfailed⟩ | ⟨_, _, _, hfailed⟩ |
    ⟨now, rows', rest, hwhole, hmarked⟩
  · exact (hsteady _ hfailed).elim
  · exact (hsteady _ hfailed).elim
  · exact (hsteady _ hfailed).elim
  · rw [hwhole] at htrace
    simp only [Sweeper.sweepStart, List.cons_append, List.nil_append, List.cons.injEq] at htrace
    obtain ⟨-, hlisted, -⟩ := htrace
    cases hlisted
    obtain ⟨ids, hid, hmark⟩ := hmarked m hmem
    refine ⟨ids, time, hid, ?_⟩
    rw [Config.did_iff_mem_trace, hwhole]
    exact List.mem_append_right _ hmark

section

variable {op : Op} {request : Call} {reply : request.Reply} {store : Store} {choice : Choice}
  {proc : Port Result}

/-- A `Delete` goes ahead since before the last step, or that step was its look
at the row. -/
theorem Deleting.before (hdeleting : Deleting (s.answer i proc ⟨request, reply⟩ store) k id) :
    Deleting s k id ∨ k = i ∧ s.trace i = [] ∧ ∃ p m, s.ops[i]? = some (.delete p id) ∧
      m.deletedAt = none ∧ (⟨request, reply⟩ : Step) = ⟨.metasGet id, .ok m⟩ := by
  obtain ⟨p, m, rest, hop, hmay, hdeleted, htrace, hlive⟩ := hdeleting
  by_cases hki : k = i
  · subst hki
    rw [Config.trace_answer_self] at htrace
    cases hbefore : s.trace k with
    | nil =>
        rw [hbefore] at htrace
        exact .inr ⟨rfl, rfl, p, m, hop, hdeleted, (List.cons.inj htrace).1⟩
    | cons first tail =>
        rw [hbefore, List.cons_append, List.cons.injEq] at htrace
        obtain ⟨rfl, rfl⟩ := htrace
        refine .inl ⟨p, m, tail, hop, hmay, hdeleted, hbefore, ?_⟩
        intro time htime
        apply hlive time
        rw [List.head?_append, htime, Option.some_or]
  · rw [Config.trace_answer_of_ne s hki] at htrace
    exact .inl ⟨p, m, rest, hop, hmay, hdeleted, htrace, hlive⟩

/-- A `Delete` has checked before the last step, or that step was its reading of
the clock. -/
theorem Checked.before (hchecked : Checked (s.answer i proc ⟨request, reply⟩ store) k id) :
    Checked s k id ∨ k = i ∧ ∃ m now, s.Did i (.metasGet id) (.ok m) ∧ m.status now = .active ∧
      (⟨request, reply⟩ : Step) = ⟨.now, now⟩ := by
  obtain ⟨p, m, now, rest, hop, hmay, hstatus, htrace⟩ := hchecked
  by_cases hki : k = i
  · subst hki
    rw [Config.trace_answer_self] at htrace
    rcases List.eq_nil_or_concat rest with rfl | ⟨front, last, rfl⟩
    · have hsplit : s.trace k ++ [⟨request, reply⟩] =
          [⟨.metasGet id, .ok m⟩] ++ [⟨.now, now⟩] := htrace
      obtain ⟨hfront, hlast⟩ := List.append_inj' hsplit rfl
      refine .inr ⟨rfl, m, now, ?_, hstatus, List.singleton_inj.mp hlast⟩
      rw [Config.did_iff_mem_trace, hfront]
      exact List.mem_singleton_self _
    · rw [List.concat_eq_append, ← List.append_assoc] at htrace
      exact .inl ⟨p, m, now, front, hop, hmay, hstatus, (List.append_inj' htrace rfl).1⟩
  · rw [Config.trace_answer_of_ne s hki] at htrace
    exact .inl ⟨p, m, now, rest, hop, hmay, hstatus, htrace⟩

/-- A pass has listed the paste before the last step, or that step was the
listing. -/
theorem Sweeping.before (hsweeping : Sweeping (s.answer i proc ⟨request, reply⟩ store) k id) :
    Sweeping s k id ∨ k = i ∧ s.ops[i]? = some .sweep ∧ ∃ time limit rows,
      (⟨request, reply⟩ : Step) = ⟨.metasListExpiredUnaudited time limit, .ok rows⟩ ∧
      ∃ m ∈ rows, m.id = id := by
  obtain ⟨hop, time, limit, rows, hdid, hlisted⟩ := hsweeping
  rcases Config.did_answer.mp hdid with hdid | ⟨rfl, heq⟩
  · exact .inl ⟨hop, time, limit, rows, hdid, hlisted⟩
  · exact .inr ⟨rfl, hop, time, limit, rows, heq.symm, hlisted⟩

end

/-! ## One at a time -/

/-- At most one `Delete` or pass ends a paste. -/
structure Apart (s : Config) : Prop where
  sequential : ∀ k k', k < k' → s.ops[k]? = some .sweep → s.ops[k']? = some .sweep →
    (s.result? k).isSome
  one_delete : ∀ id k k', Deleting s k id → Deleting s k' id → k = k'
  one_sweep : ∀ id k k', Sweeping s k id → Sweeping s k' id → k = k'
  not_both : ∀ id k k', Checked s k id → ¬ Sweeping s k' id

/-- What is known in every state of an orderly run. -/
structure Orderly (sys : Params) (s : Config) : Prop where
  wellFormed : (machine sys).WellFormed s
  provenance : Provenance sys s
  marks : MarksStay s
  steady : ∀ k, ∀ step ∈ s.trace k, Steady step
  clock : ∀ k (time : ℤ), s.Did k .now time → time ≤ s.store.clock

section

variable {op : Op} {request : Call} {reply : request.Reply} {store : Store} {choice : Choice}
  {proc : Port Result}

/-- No `Delete` of a paste goes ahead while its row is found unmarked and none is
in flight. -/
theorem Orderly.not_deleting (hstate : Orderly sys s) {m : PasteMeta}
    (hapart : ((List.range s.ops.length).all fun k => !inFlight s id k) = true)
    (hfind : s.store.pastes.find id = some m) (hdeleted : m.deletedAt = none) :
    ¬ Deleting s k id := by
  intro hdeleting
  have hop : ∃ p, s.ops[k]? = some (.delete p id) := by
    obtain ⟨p, m, rest, hop, -⟩ := hdeleting
    exact ⟨p, hop⟩
  obtain ⟨p, hop⟩ := hop
  have hlt : k < s.ops.length := (List.getElem?_eq_some_iff.mp hop).1
  have hflight : inFlight s id k = false := by
    simpa using List.all_eq_true.mp hapart k (List.mem_range.mpr hlt)
  obtain ⟨byUser, time, hdid⟩ :=
    hdeleting.marked hstate.wellFormed (hstate.steady k) hflight
  exact hstate.marks.deleted k id byUser time hdid m hfind hdeleted

/-- The row of a listed paste has expired. -/
theorem Orderly.expired_of_sweeping (hstate : Orderly sys s) (hsweeping : Sweeping s k id)
    {m : PasteMeta} (hget : s.Did i (.metasGet id) (.ok m)) : m.expiresAt ≤ s.store.clock := by
  obtain ⟨hop, time, limit, rows, hdid, m', hmem, rfl⟩ := hsweeping
  obtain ⟨hrow, hexpired, -⟩ := hstate.provenance.row_listed k time limit rows hdid m' hmem
  have hcore := hstate.provenance.core_eq (hstate.provenance.row_got i _ m hget) hrow
  obtain ⟨op, front, back, -, htrace, hreach⟩ := hstate.wellFormed.reaches_of_did hdid
  obtain ⟨-, rfl, -⟩ := call_metasListExpiredUnaudited hreach
  have hnow : s.Did k .now time :=
    Config.did_of_trace htrace (by simp)
  calc m.expiresAt = m'.expiresAt := expiresAt_of_core hcore
    _ ≤ pgTime time := hexpired
    _ ≤ time := Calendar.truncate_le (by decide)
    _ ≤ s.store.clock := hstate.clock k time hnow

theorem Apart.answer (hapart : Apart s) (hstate : Orderly sys s)
    (hdeletes : deletesApart s (.advance i choice) = true) (hop : s.ops[i]? = some op)
    (hpending : s.pending? i = some request)
    (hexec : exec sys.prims s.store request choice = some (reply, store)) :
    Apart (s.answer i proc ⟨request, reply⟩ store) := by
  have hobserved := exec_observed hexec
  have hwaiting := Config.result?_of_pending s hpending
  constructor
  case sequential =>
    intro k k' hlt hk hk'
    have hresult := hapart.sequential k k' hlt hk hk'
    by_cases hki : k = i
    · rw [hki, hwaiting] at hresult
      cases hresult
    · rwa [Config.result?_answer_of_ne s hki]
  case one_delete =>
    -- whoever looks at the row now finds it unmarked, and nobody else in flight
    have hnew : ∀ id k, Deleting s k id → s.trace i = [] → ∀ p m, s.ops[i]? = some (.delete p id) →
        m.deletedAt = none → (⟨request, reply⟩ : Step) ≠ ⟨.metasGet id, .ok m⟩ := by
      intro id k hdeleting _ p m hop' hdeleted heq
      cases heq
      simp only [deletesApart, hop', hpending] at hdeletes
      exact hstate.not_deleting hdeletes hobserved hdeleted hdeleting
    intro id k k' hdeleting hdeleting'
    rcases hdeleting.before with hbefore | ⟨rfl, hempty, p, m, hop', hdeleted, heq⟩ <;>
      rcases hdeleting'.before with hbefore' | ⟨rfl, hempty', p', m', hop'', hdeleted', heq'⟩
    · exact hapart.one_delete id k k' hbefore hbefore'
    · exact (hnew id k hbefore hempty' p' m' hop'' hdeleted' heq').elim
    · exact (hnew id k' hbefore' hempty p m hop' hdeleted heq).elim
    · rfl
  case one_sweep =>
    have hnew : ∀ k time limit rows m, Sweeping s k m.id → k ≠ i → s.ops[i]? = some .sweep →
        m ∈ rows → (⟨request, reply⟩ : Step) ≠
          ⟨.metasListExpiredUnaudited time limit, .ok rows⟩ := by
      intro k time limit rows m hsweeping hne hop' hmem heq
      cases heq
      obtain rfl : rows = s.store.pastes.listExpiredUnaudited time limit := hobserved
      obtain ⟨hfind, -, -, haudited⟩ := Pastes.of_mem_listExpiredUnaudited hmem
      rcases Nat.lt_or_gt_of_ne hne with hlt | hlt
      · -- an earlier pass has returned, so it has marked the row
        obtain ⟨ids, time', hid, hdid⟩ := hsweeping.marked hstate.wellFormed (hstate.steady k)
          (hapart.sequential k i hlt hsweeping.1 hop')
        exact hstate.marks.audited k ids time' hdid m hid hfind haudited
      · have hresult := hapart.sequential i k hlt hop' hsweeping.1
        rw [hwaiting] at hresult
        cases hresult
    intro id k k' hsweeping hsweeping'
    by_contra hne
    rcases hsweeping.before with hbefore | ⟨rfl, hop', time, limit, rows, heq, m, hmem, rfl⟩ <;>
      rcases hsweeping'.before with hbefore' | ⟨rfl, hop'', time', limit', rows', heq', m', hmem', hid⟩
    · exact hne (hapart.one_sweep id k k' hbefore hbefore')
    · exact hnew k time' limit' rows' m' (hid ▸ hbefore) hne hop'' hmem' heq'
    · exact hnew k' time limit rows m hbefore' (Ne.symm hne) hop' hmem heq
    · exact hne rfl
  case not_both =>
    intro id k k' hchecked hsweeping
    rcases hsweeping.before with hbefore | ⟨rfl, hop', time, limit, rows, heq, m, hmem, rfl⟩
    · rcases hchecked.before with hbefore' | ⟨rfl, m, now, hget, hstatus, heq⟩
      · exact hapart.not_both id k k' hbefore' hbefore
      · cases heq
        have hexpired := hstate.expired_of_sweeping hbefore hget
        have hlive := ((m.status_eq_active_iff now).mp hstatus).2
        rw [show now = s.store.clock from hobserved] at hlive
        omega
    · rcases hchecked.before with hbefore' | ⟨rfl, m', now, -, -, heq'⟩
      · cases heq
        obtain rfl : rows = s.store.pastes.listExpiredUnaudited time limit := hobserved
        obtain ⟨hfind, -, hdeleted, -⟩ := Pastes.of_mem_listExpiredUnaudited hmem
        simp only [deletesApart, hop', hpending, List.all_eq_true] at hdeletes
        exact hstate.not_deleting (List.all_eq_true.mpr (hdeletes m hmem)) hfind hdeleted
          hbefore'.deleting
      · cases heq.symm.trans heq'

end

/-- A thread that has had a call answered was not invoked just now. -/
theorem op_of_invoke {op op' : Op} {proc : Port Result} {step : Step}
    (hwf : (machine sys).WellFormed s) (hmem : step ∈ s.trace k)
    (hop : (s.invoke op proc).ops[k]? = some op') : s.ops[k]? = some op' := by
  have hlt : k < s.ops.length := hwf.bound _ ((s.did_iff_mem_trace k step.1 step.2).mpr hmem)
  rcases Config.ops_invoke s hop with hop | ⟨rfl, -⟩
  · exact hop
  · exact absurd hlt (lt_irrefl _)

theorem Apart.invoke (hapart : Apart s) (hwf : (machine sys).WellFormed s) {op : Op}
    {proc : Port Result} (hsweeps : sweepsApart s (.invoke op) = true) :
    Apart (s.invoke op proc) := by
  have hdeleting : ∀ k id, Deleting (s.invoke op proc) k id → Deleting s k id := by
    rintro k id ⟨p, m, rest, hop, hmay, hdeleted, htrace, hlive⟩
    have htrace' : s.trace k = ⟨.metasGet id, .ok m⟩ :: rest := htrace
    have hop' := op_of_invoke hwf (htrace' ▸ List.mem_cons_self) hop
    exact ⟨p, m, rest, hop', hmay, hdeleted, htrace, hlive⟩
  have hchecked : ∀ k id, Checked (s.invoke op proc) k id → Checked s k id := by
    rintro k id ⟨p, m, now, rest, hop, hmay, hstatus, htrace⟩
    have htrace' : s.trace k = ⟨.metasGet id, .ok m⟩ :: ⟨.now, now⟩ :: rest := htrace
    have hop' := op_of_invoke hwf (htrace' ▸ List.mem_cons_self) hop
    exact ⟨p, m, now, rest, hop', hmay, hstatus, htrace⟩
  have hsweeping : ∀ k id, Sweeping (s.invoke op proc) k id → Sweeping s k id := by
    rintro k id ⟨hop, time, limit, rows, hdid, hlisted⟩
    have hmem := (s.did_iff_mem_trace k _ _).mp hdid
    exact ⟨op_of_invoke hwf hmem hop, time, limit, rows, hdid, hlisted⟩
  constructor
  · intro k k' hlt hk hk'
    have hbound : k < s.ops.length := by
      have hlength := (List.getElem?_eq_some_iff.mp hk').1
      simp only [Config.invoke, List.length_append, List.length_singleton] at hlength
      omega
    rw [Config.result?_invoke_of_lt s (hwf.length_procs ▸ hbound)]
    have hbefore : s.ops[k]? = some .sweep := by
      rcases Config.ops_invoke s hk with hk | ⟨rfl, -⟩
      · exact hk
      · exact absurd hbound (lt_irrefl _)
    rcases Config.ops_invoke s hk' with hk' | ⟨-, rfl⟩
    · exact hapart.sequential k k' hlt hbefore hk'
    · have hreturned := List.all_eq_true.mp hsweeps k (List.mem_range.mpr hbound)
      simpa [hbefore] using hreturned
  · intro id k k' h h'
    exact hapart.one_delete id k k' (hdeleting k id h) (hdeleting k' id h')
  · intro id k k' h h'
    exact hapart.one_sweep id k k' (hsweeping k id h) (hsweeping k' id h')
  · intro id k k' h h'
    exact hapart.not_both id k k' (hchecked k id h) (hsweeping k' id h')

/-- What an orderly run is allowed to do. -/
structure IsOrderly (s : Config) (action : Action) : Prop where
  clock : ClockForward s action
  noFailure : NoFailure action
  sweeps : sweepsApart s action = true
  deletes : deletesApart s action = true

theorem orderly_of_run
    (hrun : (machine sys).Run IsOrderly (.initial (.empty clock E)) s) :
    Orderly sys s where
  wellFormed := hrun.wellFormed .initial
  provenance := provenance_of_run hrun
  marks := marksStay_of_run hrun
  steady _ := steady_of_run (fun _ _ hallowed => hallowed.noFailure) hrun
  clock _ _ hdid := now_le_clock (fun _ _ hallowed => hallowed.clock) hrun hdid

theorem apart_of_run
    (hrun : (machine sys).Run IsOrderly (.initial (.empty clock E)) s) : Apart s := by
  refine hrun.induct .initial ?_ ?_ ?_ ?_
  · constructor <;> simp [Deleting, Checked, Sweeping, Config.initial]
  · intro s change store _ hapart _ _
    exact ⟨hapart.sequential, hapart.one_delete, hapart.one_sweep, hapart.not_both⟩
  · intro s op hpast hapart hallowed
    exact hapart.invoke (orderly_of_run hpast).wellFormed hallowed.sweeps
  · intro s i op choice request reply store proc hpast hapart hallowed hop hpending _ hexec
    exact hapart.answer (orderly_of_run hpast) hallowed.deletes hop hpending hexec

/-! ## Counting the events -/

/-- The event tells of the end of the paste. -/
def isTerminal (id : UUID) (event : Event) : Bool :=
  event.pasteId = some id && (event.kind = .pasteDeleted || event.kind = .pasteExpired)

def Ends (s : Config) (k : ℕ) (id : UUID) : Prop := Checked s k id ∨ Sweeping s k id

theorem Apart.ends_unique (hapart : Apart s) (hends : Ends s k id) (hends' : Ends s j id) :
    k = j := by
  rcases hends with hchecked | hsweeping <;> rcases hends' with hchecked' | hsweeping'
  · exact hapart.one_delete id k j hchecked.deleting hchecked'.deleting
  · exact (hapart.not_both id k j hchecked hsweeping').elim
  · exact (hapart.not_both id j k hchecked' hsweeping).elim
  · exact hapart.one_sweep id k j hsweeping hsweeping'

/-- Whoever records the end of a paste ends it, and has not recorded it yet. -/
theorem Orderly.ends_of_terminal (hstate : Orderly sys s) {op : Op} {event : Event}
    {front back : List Step} (hop : s.ops[k]? = some op) (htrace : s.trace k = front ++ back)
    (hreach : (program sys op).Reaches front (.inl (.auditRecord event)))
    (hterminal : isTerminal id event = true) :
    Ends s k id ∧ ∀ event', ⟨.auditRecord event', ()⟩ ∈ front → isTerminal id event' = false := by
  simp only [isTerminal, Bool.and_eq_true, Bool.or_eq_true, decide_eq_true_eq] at hterminal
  obtain ⟨hpaste, hkind⟩ := hterminal
  have hmakes := makes_of_reaches hreach
  cases op with
  | delete p id' =>
      obtain rfl : id' = id := Option.some.inj (hmakes.1.symm.trans hpaste)
      cases delete_point sys.deps hreach.of_map with
      | @recording m now hmay hstatus _ _ hrecord =>
          rw [List.append_assoc, List.append_assoc] at htrace
          refine ⟨.inl ⟨p, m, now, _, hop, hmay, hstatus, htrace⟩, ?_⟩
          · intro event' hmem
            cases hrecord
            simp [deleteChecks] at hmem
  | sweep =>
      cases Sweeper.runOnce_call hreach.of_map with
      | expiring now rows tail _ before m after hbatch =>
          rcases hbatch.request_eq with heq | ⟨heq, -⟩
          · cases heq
          cases heq
          obtain rfl : m.id = id := Option.some.inj hpaste
          have hdid : s.Did k (.metasListExpiredUnaudited now sys.sweeper.batchSize) (.ok rows) :=
            Config.did_of_trace htrace (by simp [Sweeper.sweepStart])
          refine ⟨.inr ⟨hop, now, _, rows, hdid, m, by simp [hbatch.rows_eq], rfl⟩, ?_⟩
          intro event' hmem
          simp only [Sweeper.sweepStart, List.cons_append, List.nil_append, List.mem_cons] at hmem
          rcases hmem with hmem | hmem | hmem
          · cases hmem
          · cases hmem
          · -- an earlier row of the batch, which has another id
            obtain ⟨m', hm', rfl⟩ := hbatch.events event' hmem
            have hnodup := hstate.marks.listed_once k now _ rows hdid
            rw [hbatch.rows_eq, List.map_append, List.map_cons, List.nodup_append] at hnodup
            have hne : m'.id ≠ m.id :=
              hnodup.2.2 _ (List.mem_map_of_mem hm') _ List.mem_cons_self
            simp [isTerminal, Sweeper.expiredEvent, hne]
      | purge now rows rest ids failed hdone hdays _ hpurge => cases hpurge
      | housekeeping _ _ hhouse =>
          rcases hhouse with hother | hother <;> simp [hother] at hkind
  | create p input => simp [show event.kind = .pasteCreated from hmakes] at hkind
  | read q id' password =>
      have hother := hmakes.2
      rcases hkind with hkind | hkind <;> simp [hkind] at hother
  | verify id' sha256hex => simp [show event.kind = .pasteVerify from hmakes] at hkind
  | _ => cases hmakes

/-- The end of a paste has been recorded at most once. -/
def RecordedOnce (s : Config) : Prop := ∀ id, (events s).countP (isTerminal id) ≤ 1

theorem RecordedOnce.answer (honce : RecordedOnce s) (hstate : Orderly sys s) (hapart : Apart s)
    {op : Op} {request : Call} {reply : request.Reply} {store : Store} {proc : Port Result}
    (hop : s.ops[i]? = some op) (hreach : (program sys op).Reaches (s.trace i) (.inl request)) :
    RecordedOnce (s.answer i proc ⟨request, reply⟩ store) := by
  intro id
  have hevents : events (s.answer i proc ⟨request, reply⟩ store) =
      events s ++ (eventOf ⟨request, reply⟩).toList := by
    simp only [events, Config.log_answer, List.filterMap_append, List.filterMap_cons,
      List.filterMap_nil]
    cases eventOf (⟨request, reply⟩ : Step) <;> rfl
  rw [hevents, List.countP_append]
  cases hevent : eventOf (⟨request, reply⟩ : Step) with
  | none => simpa using honce id
  | some event =>
      cases hterminal : isTerminal id event with
      | false => simpa [hterminal] using honce id
      | true =>
          -- this is the first one: another would be in the log of the same thread
          cases eventOf_eq_some_iff.mp hevent
          obtain ⟨hends, hfirst⟩ := hstate.ends_of_terminal hop (List.append_nil _).symm hreach
            hterminal
          have hnone : (events s).countP (isTerminal id) = 0 := by
            rw [List.countP_eq_zero]
            intro event' hmem hterminal'
            obtain ⟨j, hdid⟩ := mem_events.mp hmem
            obtain ⟨op', front, back, hop', htrace, hreach'⟩ :=
              hstate.wellFormed.reaches_of_did hdid
            obtain ⟨hends', -⟩ := hstate.ends_of_terminal hop' htrace hreach' hterminal'
            obtain rfl := hapart.ends_unique hends hends'
            rw [hfirst event' ((s.did_iff_mem_trace i _ _).mp hdid)] at hterminal'
            cases hterminal'
          simp [hnone, hterminal]

theorem recordedOnce_of_run
    (hrun : (machine sys).Run IsOrderly (.initial (.empty clock E)) s) :
    RecordedOnce s := by
  refine hrun.induct .initial ?_ ?_ ?_ ?_
  · intro id
    simp [events, Config.initial]
  · intro s change store _ honce _ _
    exact honce
  · intro s op _ honce _
    exact honce
  · intro s i op choice request reply store proc hpast honce _ hop _ hreach _
    exact honce.answer (orderly_of_run hpast) (apart_of_run hpast) hop hreach

/-- In an orderly run the end of a paste is recorded at most once, and its row
never carries both marks. -/
theorem end_recorded_once (sys : Params) (clock : ℤ) (E : Envelope) (s : Config)
    (hrun : (machine sys).Run IsOrderly (.initial (.empty clock E)) s) (id : UUID) :
    (events s).countP (isTerminal id) ≤ 1 ∧
      ∀ m, s.store.pastes.find id = some m → m.deletedAt = none ∨ m.expiredAuditedAt = none := by
  have hstate := orderly_of_run hrun
  refine ⟨recordedOnce_of_run hrun id, ?_⟩
  intro m hfind
  by_contra hboth
  rw [not_or] at hboth
  obtain ⟨k, byUser, time, hmarked⟩ := hstate.marks.deleted_by id m hfind hboth.1
  obtain ⟨j, now, m', -, -, hid, haudited⟩ :=
    (markedLast_of_run hrun).audited id m hfind hboth.2
  obtain ⟨op, front, back, hop, htrace, hreach⟩ := hstate.wellFormed.reaches_of_did haudited
  have hterminal : isTerminal id (Sweeper.expiredEvent now m') = true := by
    simp [isTerminal, Sweeper.expiredEvent, hid]
  obtain ⟨hends, -⟩ := hstate.ends_of_terminal hop htrace hreach hterminal
  have hchecked := checked_of_markDeleted hstate.wellFormed hmarked
  -- the thread that recorded the expiry is a pass, not a Delete
  obtain rfl := (apart_of_run hrun).ends_unique (.inl hchecked) hends
  obtain ⟨p, -, -, -, hop', -⟩ := hchecked
  cases hop.symm.trans hop'
  have hreach' : (program sys (.delete p id)).Reaches front
      (.inl (.auditRecord (Sweeper.expiredEvent now m'))) := hreach
  cases (makes_of_reaches hreach').2

/-! ## Sample runs -/

/-- Two `Delete`s that have both checked the row both record its end; and a pass
that overtakes a `Delete` leaves both marks and both events.  Nothing fails, and
there is one sweeper. -/
theorem end_recorded_twice :
    (∃ s, (machine Sample.params).Run (fun s action =>
        ClockForward s action ∧ NoFailure action ∧ sweepsApart s action = true) Sample.start s ∧
      (events s).countP (isTerminal Sample.id) = 2) ∧
    ∃ s m, (machine Sample.params).Run (fun s action =>
        ClockForward s action ∧ NoFailure action ∧ sweepsApart s action = true) Sample.start s ∧
      (events s).countP (isTerminal Sample.id) = 2 ∧
      s.store.pastes.find Sample.id = some m ∧ m.deletedAt ≠ none ∧ m.expiredAuditedAt ≠ none := by
  constructor
  · have hperform : ((machine Sample.params).perform
        (fun s action => decide (ClockForward s action ∧ NoFailure action ∧
          sweepsApart s action = true)) Sample.start
        (Sample.creating ++ [.invoke (.delete Sample.owner Sample.id),
          .invoke (.delete Sample.owner Sample.id)] ++ Sample.calls 1 2 ++ Sample.calls 2 2 ++
          Sample.calls 1 4 ++ Sample.calls 2 4)).any (fun s =>
        (events s).countP (isTerminal Sample.id) = 2) = true := by decide +kernel
    obtain ⟨s, hrun, hs⟩ := Machine.exists_decided_run hperform
    exact ⟨s, hrun, of_decide_eq_true hs⟩
  · have hperform : ((machine Sample.params).perform
        (fun s action => decide (ClockForward s action ∧ NoFailure action ∧
          sweepsApart s action = true)) Sample.start
        (Sample.creating ++ .invoke (.delete Sample.owner Sample.id) :: Sample.calls 1 2 ++
          [.env (.tick 61000000000), .invoke .sweep] ++ Sample.calls 2 5 ++
          Sample.calls 1 4)).any (fun s =>
        (events s).countP (isTerminal Sample.id) = 2 &&
        (s.store.pastes.find Sample.id).any fun m =>
          decide (m.deletedAt ≠ none ∧ m.expiredAuditedAt ≠ none)) = true := by decide +kernel
    obtain ⟨s, hrun, hs⟩ := Machine.exists_decided_run hperform
    rw [Bool.and_eq_true, Option.any_eq_true] at hs
    obtain ⟨hcount, m, hfind, hmarks⟩ := hs
    exact ⟨s, m, hrun, of_decide_eq_true hcount, hfind, of_decide_eq_true hmarks⟩

/-- Two `Delete`s one after the other record one end. -/
theorem end_recorded_once_sample :
    ∃ s, (machine Sample.params).Run IsOrderly Sample.start s ∧
      s.result? 1 = some (.delete (.ok ())) ∧ s.result? 2 = some (.delete (.ok ())) ∧
      (events s).countP (isTerminal Sample.id) ≤ 1 := by
  have hperform : ((machine Sample.params).perform
      (fun s action => decide (ClockForward s action) && decide (NoFailure action) &&
        sweepsApart s action && deletesApart s action) Sample.start
      (Sample.creating ++ [.invoke (.delete Sample.owner Sample.id),
        .invoke (.delete Sample.owner Sample.id)] ++ Sample.calls 1 6 ++ Sample.calls 2 2)).any
      (fun s => s.result? 1 = some (.delete (.ok ())) &&
        s.result? 2 = some (.delete (.ok ()))) = true := by decide +kernel
  have hguard : ∀ (s : Config) (action : Action),
      (decide (ClockForward s action) && decide (NoFailure action) &&
        sweepsApart s action && deletesApart s action) = true → IsOrderly s action := by
    intro s action hallowed
    simp only [Bool.and_eq_true, decide_eq_true_eq] at hallowed
    exact ⟨hallowed.1.1.1, hallowed.1.1.2, hallowed.1.2, hallowed.2⟩
  obtain ⟨s, hrun, hs⟩ := Machine.exists_run_of_perform hguard hperform
  rw [Bool.and_eq_true, decide_eq_true_eq, decide_eq_true_eq] at hs
  exact ⟨s, hrun, hs.1, hs.2,
    (end_recorded_once Sample.params 0 Crypto.Sample.envelope s hrun Sample.id).1⟩

end SecurePastebin.System
