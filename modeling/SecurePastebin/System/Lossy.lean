import SecurePastebin.System.Provenance

/-!
# Stores that lose things

The paste system once more, now with stores that may execute a call and lose its
reply, and a Redis that may drop a body at any time.  The stores may hold anything
at the start, as long as nothing is stored under an identifier yet to be drawn.
-/

namespace SecurePastebin.System

open Text Uuid Paste Crypto
open SecurePastebin.Store Process Interleaving

/-! ## The machine -/

inductive LossyChoice where
  | plain (choice : Choice)
  /-- The call is executed, and its reply is lost. -/
  | lost (text : String)

inductive LossyEnv where
  | plain (change : Env)
  | loseBody (id : UUID)

def lossyExec (P : Primitives) (store : Store) (request : Call) :
    LossyChoice → Option (request.Reply × Store)
  | .plain choice => exec P store request choice
  | .lost text =>
      match failure text request, answer store request with
      | some reply, some (_, next) => some (reply, next)
      | _, _ => none

def lossyMachine (sys : Params) : Machine Store Op Call Call.Reply LossyChoice LossyEnv Result where
  program := program sys
  exec := lossyExec sys.prims
  env store
    | .plain change => (machine sys).env store change
    | .loseBody id => some { store with redis := Bodies.delete store.redis id }

abbrev LossyAction := Interleaving.Action Op LossyChoice LossyEnv

/-- The clock does not run backwards. -/
def LossyForward (s : Config) : LossyAction → Prop
  | .env (.plain (.tick time)) => s.store.clock ≤ time
  | _ => True

instance (s : Config) : (action : LossyAction) → Decidable (LossyForward s action)
  | .env (.plain (.tick time)) => inferInstanceAs (Decidable (s.store.clock ≤ time))
  | .env (.plain (.restart _)) | .env (.loseBody _) => .isTrue trivial
  | .invoke _ => .isTrue trivial
  | .advance .. => .isTrue trivial

/-- Nothing is stored under an identifier that is yet to be drawn. -/
def Covered (store : Store) : Prop :=
  ∀ id, (store.pastes.find id ≠ none ∨ store.redis (Bodies.bodyKey id) ≠ none) → id ∈ store.drawn

theorem covered_empty (clock : ℤ) (E : Envelope) : Covered (.empty clock E) := by
  rintro id (hrow | hbody)
  · exact absurd rfl hrow
  · exact absurd rfl hbody

/-! ## What one call does -/

section Step

variable {P : Primitives} {store next : Store} {request : Call} {reply : request.Reply}
  {choice : LossyChoice}

/-- A lost call changes the stores as the call does, and reports an error. -/
theorem lossyExec_cases (hexec : lossyExec P store request choice = some (reply, next)) :
    (∃ choice, exec P store request choice = some (reply, next)) ∨
      ∃ text out, choice = .lost text ∧ failure text request = some reply ∧
        exec P store request .ok = some (out, next) := by
  cases choice with
  | plain choice => exact .inl ⟨choice, hexec⟩
  | lost text =>
      simp only [lossyExec] at hexec
      split at hexec
      · rename_i found out after hfailure hanswer
        cases hexec
        exact .inr ⟨text, out, rfl, hfailure, hanswer⟩
      · cases hexec

/-- How the stores change: as the call has it, whatever was replied. -/
theorem lossyExec_steps (hexec : lossyExec P store request choice = some (reply, next)) :
    ∃ out, PastesStep store ⟨request, out⟩ next.pastes ∧ RedisStep store ⟨request, out⟩ next.redis ∧
      (out = reply ∨ ∃ text, choice = .lost text ∧ failure text request = some reply) := by
  rcases lossyExec_cases hexec with ⟨plain, hplain⟩ | ⟨text, out, hchoice, hfailure, hexec⟩
  · exact ⟨reply, exec_pastes hplain, exec_redis hplain, .inl rfl⟩
  · exact ⟨out, exec_pastes hexec, exec_redis hexec, .inr ⟨text, hchoice, hfailure⟩⟩

theorem lossyExec_clock (hexec : lossyExec P store request choice = some (reply, next)) :
    next.clock = store.clock := by
  rcases lossyExec_cases hexec with ⟨choice, hexec⟩ | ⟨text, out, -, -, hexec⟩
  · exact (exec_clock_envelope hexec).1
  · exact (exec_clock_envelope hexec).1

/-- A reply that no failure gives is the one of the call. -/
theorem lossyExec_plain (hexec : lossyExec P store request choice = some (reply, next))
    (hreply : ∀ text, failure text request ≠ some reply) :
    ∃ choice, exec P store request choice = some (reply, next) := by
  rcases lossyExec_cases hexec with hplain | ⟨text, out, -, hfailure, -⟩
  · exact hplain
  · exact absurd hfailure (hreply text)

theorem lossyExec_drawn (hexec : lossyExec P store request choice = some (reply, next)) :
    (∃ id, (⟨request, reply⟩ : Step) = ⟨.newUUID, id⟩ ∧ id ∉ store.drawn ∧
        next.drawn = id :: store.drawn) ∨
      (∀ id, (⟨request, reply⟩ : Step) ≠ ⟨.newUUID, id⟩) ∧ next.drawn = store.drawn := by
  have hplain : ∀ {choice : Choice} {reply : request.Reply},
      exec P store request choice = some (reply, next) →
      (∃ id, (⟨request, reply⟩ : Step) = ⟨.newUUID, id⟩ ∧ id ∉ store.drawn ∧
          next.drawn = id :: store.drawn) ∨
        (∀ id, (⟨request, reply⟩ : Step) ≠ ⟨.newUUID, id⟩) ∧ next.drawn = store.drawn := by
    intro choice reply hexec
    rcases exec_drawn hexec with ⟨id, hstep, hdrawn⟩ | hother
    · have hobserved := exec_observed hexec
      rw [hstep] at hobserved
      exact .inl ⟨id, hstep, hobserved, hdrawn⟩
    · exact .inr hother
  rcases lossyExec_cases hexec with ⟨choice, hexec⟩ | ⟨text, out, -, hfailure, hexec⟩
  · exact hplain hexec
  · refine .inr ⟨?_, ?_⟩
    · rintro id ⟨⟩
      cases hfailure
    · rcases hplain hexec with ⟨id, hstep, -⟩ | hother
      · cases hstep
        cases hfailure
      · exact hother.2

end Step

/-! ## Where rows come from -/

variable {sys : Params} {start : Store} {s next : Config} {i j : ℕ} {id : UUID}

/-- The row is, counters and marks apart, one of the start or one that a `Create`
has sent, whatever it was told. -/
inductive IsLossyRow (sys : Params) (start : Store) (s : Config) (id : UUID) (m : PasteMeta) :
    Prop
  | old (m₀ : PasteMeta) (hfind : start.pastes.find id = some m₀) (hcore : core m = core m₀)
  | sent (i : ℕ) (c : Creation) (reply : Except Err Unit) (hstored : Stored sys s i c)
      (hsent : s.Did i (.metasCreate (c.info sys)) reply) (hid : c.id = id)
      (hcore : core m = core (storedRow (c.info sys)))

theorem IsLossyRow.mono {m : PasteMeta} (hrow : IsLossyRow sys start s id m)
    (hextends : s.Extends next) : IsLossyRow sys start next id m := by
  cases hrow with
  | old m₀ hfind hcore => exact .old m₀ hfind hcore
  | sent i c reply hstored hsent hid hcore =>
      exact .sent i c reply (hstored.mono hextends) (hextends.did hsent) hid hcore

theorem IsLossyRow.congr {m m' : PasteMeta} (hrow : IsLossyRow sys start s id m)
    (hsame : core m' = core m) : IsLossyRow sys start s id m' := by
  cases hrow with
  | old m₀ hfind hcore => exact .old m₀ hfind (hsame.trans hcore)
  | sent i c reply hstored hsent hid hcore =>
      exact .sent i c reply hstored hsent hid (hsame.trans hcore)

structure RowOrigin (sys : Params) (start : Store) (s : Config) : Prop where
  drawn : ∀ i id, s.Did i .newUUID id → id ∈ s.store.drawn ∧ id ∉ start.drawn
  kept : start.drawn ⊆ s.store.drawn
  unique : ∀ i j id, s.Did i .newUUID id → s.Did j .newUUID id → i = j
  row : ∀ id m, s.store.pastes.find id = some m → IsLossyRow sys start s id m
  row_got : ∀ i id m, s.Did i (.metasGet id) (.ok m) → IsLossyRow sys start s id m

/-- Nothing was stored at the start under an identifier that was drawn since. -/
theorem RowOrigin.not_old (horigin : RowOrigin sys start s) (hcovered : Covered start)
    (hdrew : s.Did i .newUUID id) : start.pastes.find id = none := by
  by_contra hfind
  exact (horigin.drawn i id hdrew).2 (hcovered id (.inl hfind))

/-- Two rows seen under one identifier agree in all that never changes. -/
theorem RowOrigin.core_eq (horigin : RowOrigin sys start s) (hcovered : Covered start)
    {m m' : PasteMeta} (hrow : IsLossyRow sys start s id m)
    (hrow' : IsLossyRow sys start s id m') : core m = core m' := by
  cases hrow with
  | old m₀ hfind hcore =>
      cases hrow' with
      | old m₁ hfind' hcore' =>
          rw [hfind] at hfind'
          cases hfind'
          rw [hcore, hcore']
      | sent j c' _ hstored' _ hid' _ =>
          cases hfind.symm.trans (horigin.not_old hcovered (hid' ▸ hstored'.drew))
  | sent i c _ hstored _ hid hcore =>
      cases hrow' with
      | old m₁ hfind' _ =>
          cases hfind'.symm.trans (horigin.not_old hcovered (hid ▸ hstored.drew))
      | sent j c' _ hstored' _ hid' hcore' =>
          obtain rfl := horigin.unique i j id (hid ▸ hstored.drew) (hid' ▸ hstored'.drew)
          have hop : c.op = c'.op := Option.some.inj (hstored.op.symm.trans hstored'.op)
          obtain rfl := Creation.eq_of_start hop hstored.accepted hstored'.accepted
            ((c.sealedTrace_start sys).trans hstored.trace)
            ((c'.sealedTrace_start sys).trans hstored'.trace)
          rw [hcore, hcore']

/-- What has a row has been drawn. -/
theorem RowOrigin.mem_drawn (horigin : RowOrigin sys start s) (hcovered : Covered start)
    {m : PasteMeta} (hrow : IsLossyRow sys start s id m) : id ∈ s.store.drawn := by
  cases hrow with
  | old m₀ hfind _ => exact horigin.kept (hcovered id (.inl (by simp [hfind])))
  | sent i c _ hstored _ hid _ => exact (horigin.drawn i id (hid ▸ hstored.drew)).1

theorem rowOrigin_initial (store : Store) : RowOrigin sys store (Config.initial store) where
  drawn i id hdid := by simp [Config.Did, Config.initial] at hdid
  kept := List.Subset.refl _
  unique i j id hdid := by simp [Config.Did, Config.initial] at hdid
  row id m hfind := .old m hfind rfl
  row_got i id m hdid := by simp [Config.Did, Config.initial] at hdid

/-- Nothing but the log, the table and the identifiers matters. -/
theorem RowOrigin.of_store (horigin : RowOrigin sys start s) (hextends : s.Extends next)
    (hlog : next.log = s.log) (hpastes : next.store.pastes = s.store.pastes)
    (hdrawn : next.store.drawn = s.store.drawn) : RowOrigin sys start next where
  drawn i id hdid := by
    rw [hdrawn]
    rw [Config.Did, hlog] at hdid
    exact horigin.drawn i id hdid
  kept := hdrawn ▸ horigin.kept
  unique i j id hdid hdid' := by
    rw [Config.Did, hlog] at hdid hdid'
    exact horigin.unique i j id hdid hdid'
  row id m hfind := by
    rw [hpastes] at hfind
    exact (horigin.row id m hfind).mono hextends
  row_got i id m hdid := by
    rw [Config.Did, hlog] at hdid
    exact (horigin.row_got i id m hdid).mono hextends

theorem RowOrigin.answer (horigin : RowOrigin sys start s) {op : Op} {request : Call}
    {reply : request.Reply} {store : Store} {choice : LossyChoice} {proc : Port Result}
    (hop : s.ops[i]? = some op) (hreach : (program sys op).Reaches (s.trace i) (.inl request))
    (hexec : lossyExec sys.prims s.store request choice = some (reply, store)) :
    RowOrigin sys start (s.answer i proc ⟨request, reply⟩ store) := by
  have hextends : s.Extends (s.answer i proc ⟨request, reply⟩ store) :=
    Config.extends_answer i proc _ store
  have hfresh : ∀ j id, (s.answer i proc ⟨request, reply⟩ store).Did j .newUUID id →
      s.Did j .newUUID id ∨ j = i ∧ id ∉ s.store.drawn ∧ store.drawn = id :: s.store.drawn := by
    intro j id hdid
    rcases Config.did_answer.mp hdid with hdid | ⟨hj, heq⟩
    · exact .inl hdid
    · rcases lossyExec_drawn hexec with ⟨new, hstep, hnew, hdrawn⟩ | ⟨hother, -⟩
      · cases heq.trans hstep
        exact .inr ⟨hj, hnew, hdrawn⟩
      · exact absurd heq.symm (hother id)
  have hsubset : s.store.drawn ⊆ store.drawn := by
    rcases lossyExec_drawn hexec with ⟨new, -, -, hdrawn⟩ | ⟨-, hdrawn⟩
    · rw [hdrawn]
      exact List.subset_cons_self _ _
    · exact hdrawn ▸ List.Subset.refl _
  constructor
  case drawn =>
    intro j id hdid
    rw [Config.store_answer]
    rcases hfresh j id hdid with hdid | ⟨-, hnew, hdrawn⟩
    · exact ⟨hsubset (horigin.drawn j id hdid).1, (horigin.drawn j id hdid).2⟩
    · exact ⟨by simp [hdrawn], fun hold => hnew (horigin.kept hold)⟩
  case kept => exact fun _ hmem => hsubset (horigin.kept hmem)
  case unique =>
    intro j k id hdid hdid'
    rcases hfresh j id hdid with hbefore | ⟨hj, hnew, -⟩ <;>
      rcases hfresh k id hdid' with hbefore' | ⟨hk, hnew', -⟩
    · exact horigin.unique j k id hbefore hbefore'
    · exact absurd (horigin.drawn j id hbefore).1 hnew'
    · exact absurd (horigin.drawn k id hbefore').1 hnew
    · rw [hj, hk]
  case row =>
    intro id m hfind
    obtain ⟨out, hpastes, -, -⟩ := lossyExec_steps hexec
    rcases hpastes.row hfind with ⟨m₀, hinserted⟩ | ⟨m₀, hm, hchange⟩
    · obtain ⟨c, hlisted, hid, hinfo, hrow, htrace⟩ := hinserted.creation proc store hop hreach
      cases hinserted.step_eq
      subst hinfo
      refine .sent i c reply ⟨hlisted.op, hlisted.accepted, hlisted.remaining, ?_⟩
        (Config.did_answer.mpr (.inr ⟨rfl, rfl⟩)) hid (by rw [hrow])
      rw [Config.trace_answer_self, htrace]
      exact List.prefix_append _ _
    · exact ((horigin.row id m₀ hm).mono hextends).congr hchange.core_eq
  case row_got =>
    intro j id m hdid
    refine IsLossyRow.mono ?_ hextends
    rcases Config.did_answer.mp hdid with hdid | ⟨-, heq⟩
    · exact horigin.row_got j id m hdid
    · cases heq
      obtain ⟨plain, hplain⟩ := lossyExec_plain hexec (fun _ => by simp [failure])
      exact horigin.row id m (exec_observed hplain)

variable {allowed : Config → LossyAction → Prop}

theorem rowOrigin_of_run (hrun : (lossyMachine sys).Run allowed (.initial start) s) :
    RowOrigin sys start s := by
  refine hrun.induct .initial (rowOrigin_initial start) ?_ ?_ ?_
  · intro s change store _ horigin _ henv
    cases change with
    | plain change =>
        cases change <;> cases henv <;> exact horigin.of_store (Config.extends_store _) rfl rfl rfl
    | loseBody id =>
        cases henv
        exact horigin.of_store (Config.extends_store _) rfl rfl rfl
  · intro s op _ horigin _
    exact horigin.of_store (Config.extends_invoke op _) rfl rfl rfl
  · intro s i op choice request reply store proc _ horigin _ hop _ hreach hexec
    exact horigin.answer hop hreach hexec

end SecurePastebin.System
