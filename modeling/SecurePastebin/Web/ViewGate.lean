import SecurePastebin.Web.Grammar
import SecurePastebin.Web.Machine

/-!
# Views that require a session

With `VIEW_REQUIRES_AUTH` a request without a session never reaches the paste
service: the gate stands before the identifier is parsed, before the rate limits
and before the lookup.  So two runs of the same requests, from states that differ
in what the paste service stores, stay in step.
-/

namespace SecurePastebin.Web

open Text Uuid Process Interleaving

/-! ## What an anonymous request calls -/

section Calls

variable {srv : Server} {r : Request} {trace : List Step} {call : Paste.Call}

/-- Behind the gate there is no paste call without a session. -/
theorem dispatch_anonymous (hgate : srv.viewRequiresAuth = true) :
    ¬ (dispatch srv r none).Reaches trace (.inl (.paste call)) := by
  intro hreach
  rcases dispatch_call hreach with hmay | ⟨endpoint, -, hmay, hserve⟩
  · exact servesPastes_of_mayCall hmay
  · have hserves := servesPastes_of_mayCall hmay
    cases endpoint with
    | createPaste | deletePaste | listMine | adminList => cases hserve.2
    | getPaste | unlockPaste | rawPaste | verifyPaste =>
        rw [serveEndpoint, viewGate, if_pos hgate] at hserve
        cases hserve.2
    | _ => exact hserves

/-- A request that uses the paste service has been resolved to a session. -/
theorem serve_paste (hgate : srv.viewRequiresAuth = true)
    (hreach : (serve srv r).Reaches trace (.inl (.paste call))) :
    ∃ front si, front <+: trace ∧ (loadSession srv r).Reaches front (.inr (some si)) := by
  rcases serve_reaches hreach with ⟨request, hload, hpoint⟩ | ⟨info, front, tail, rfl, hload, hrest⟩
  · cases hpoint
    cases loadSession_reaches hload
  · rcases hrest with ⟨refusal, -, -, ⟨⟩⟩ | ⟨-, hdispatch⟩
    cases info with
    | none => exact absurd hdispatch (dispatch_anonymous hgate)
    | some si => exact ⟨front, si, List.prefix_append _ _, hload⟩

end Calls

/-! ## States that differ in what the paste service stores -/

/-- What the paste service stores: identifiers, bodies, rows with their view
counts, audit events. -/
def Store.pasteData (store : Store) :
    List UUID × Keyspace Bytes × Store.Pastes × List Paste.Event :=
  (store.system.drawn, store.system.redis, store.system.pastes, store.system.audit)

/-- The states agree on everything else. -/
structure Store.Agree (left right : Store) : Prop where
  clock : left.system.clock = right.system.clock
  envelope : left.system.envelope = right.system.envelope
  sessions : left.sessions = right.sessions
  users : left.users = right.users
  states : left.states = right.states
  buckets : left.buckets = right.buckets

variable {P : Crypto.Primitives} {left right next : Store} {request : Call} {reply : request.Reply}
  {choice : Choice}

/-- A call of another port is answered alike, and leaves the paste data alone. -/
theorem exec_agree (hagree : left.Agree right) (hother : ∀ call, request ≠ .paste call)
    (hexec : exec P left request choice = some (reply, next)) :
    next.pasteData = left.pasteData ∧ ∃ next', exec P right request choice = some (reply, next') ∧
      next'.pasteData = right.pasteData ∧ next.Agree next' := by
  have hsession : left.sessionStore = right.sessionStore := by
    rw [Store.sessionStore, Store.sessionStore, Store.clock, Store.clock, hagree.clock, hagree.sessions]
  have hauth : left.authStore = right.authStore := by
    rw [Store.authStore, Store.authStore, Store.clock, Store.clock, hagree.clock, hagree.users,
      hagree.states]
  cases request with
  | paste call => exact absurd rfl (hother call)
  | session call =>
      cases choice <;> simp only [exec, reduceCtorEq] at hexec
      obtain ⟨⟨answer, after⟩, hanswer, heq⟩ := Option.map_eq_some_iff.mp hexec
      cases heq
      rw [hsession] at hanswer
      exact ⟨rfl, { right with sessions := after.keys }, by simp only [exec, hanswer, Option.map_some],
        rfl, ⟨hagree.clock, hagree.envelope, rfl, hagree.users, hagree.states, hagree.buckets⟩⟩
  | auth call =>
      cases choice <;> simp only [exec, reduceCtorEq] at hexec
      obtain ⟨⟨answer, after⟩, hanswer, heq⟩ := Option.map_eq_some_iff.mp hexec
      cases heq
      rw [hauth] at hanswer
      exact ⟨rfl, { right with users := after.users, states := after.states },
        by simp only [exec, hanswer, Option.map_some],
        rfl, ⟨hagree.clock, hagree.envelope, hagree.sessions, rfl, rfl, hagree.buckets⟩⟩
  | limit call =>
      cases choice <;> simp only [exec, reduceCtorEq] at hexec
      obtain ⟨⟨answer, after⟩, hanswer, heq⟩ := Option.map_eq_some_iff.mp hexec
      cases heq
      rw [Store.clock, hagree.buckets, hagree.clock] at hanswer
      exact ⟨rfl, { right with buckets := after },
        by simp only [exec, Store.clock, hanswer, Option.map_some],
        rfl, ⟨hagree.clock, hagree.envelope, hagree.sessions, hagree.users, hagree.states, rfl⟩⟩
  | challengeIssue | challengeVerify | challengeConsume | ready =>
      cases choice <;> simp only [exec, reduceCtorEq] at hexec
      cases hexec
      exact ⟨rfl, right, rfl, rfl, hagree⟩

/-! ## Runs in step -/

/-- The configurations differ in the paste data only. -/
structure Alike (s s' : Config) : Prop where
  ops : s.ops = s'.ops
  procs : s.procs = s'.procs
  log : s.log = s'.log
  store : s.store.Agree s'.store

variable {app : Params} {s s' after : Config} {action : Action}

theorem act_alike (halike : Alike s s')
    (hother : ∀ i choice call, action = .advance i choice → s.pending? i ≠ some (.paste call))
    (hact : (machine app).act s action = some after) :
    after.store.pasteData = s.store.pasteData ∧
      ∃ after', (machine app).act s' action = some after' ∧
        after'.store.pasteData = s'.store.pasteData ∧ Alike after after' := by
  obtain ⟨store, ops, procs, log⟩ := s
  obtain ⟨store', ops', procs', log'⟩ := s'
  obtain ⟨hops, hprocs, hlog, hagree⟩ := halike
  dsimp only at hops hprocs hlog hagree
  subst hops hprocs hlog
  rcases Machine.act_cases hact with ⟨change, next, rfl, hnext, rfl⟩ | ⟨op, rfl, rfl⟩ |
    ⟨i, choice, request, rest, reply, next, rfl, hproc, hexec, rfl⟩
  · cases change with
    | elapse time =>
        cases hnext
        refine ⟨rfl, _, rfl, rfl, ⟨rfl, rfl, rfl, ?_⟩⟩
        exact ⟨congrArg (· + (time : ℤ)) hagree.clock, hagree.envelope, hagree.sessions,
          hagree.users, hagree.states, hagree.buckets⟩
    | restart envelope =>
        cases hnext
        exact ⟨rfl, _, rfl, rfl, ⟨rfl, rfl, rfl, ⟨hagree.clock, rfl, hagree.sessions,
          hagree.users, hagree.states, hagree.buckets⟩⟩⟩
  · exact ⟨rfl, _, rfl, rfl, ⟨rfl, rfl, rfl, hagree⟩⟩
  · have hnot : ∀ call, request ≠ .paste call := by
      rintro call rfl
      exact hother i choice call rfl (by rw [Config.pending?, hproc])
    obtain ⟨hkept, next', hexec', hkept', hagree'⟩ := exec_agree hagree hnot hexec
    refine ⟨hkept, Config.answer ⟨store', ops, procs, log⟩ i (rest reply) ⟨request, reply⟩ next', ?_,
      hkept', ⟨rfl, rfl, rfl, hagree'⟩⟩
    dsimp only at hproc
    simp only [Machine.act, hproc]
    exact congrArg (Option.map _) hexec'

/-- No request of the configuration has been resolved to a session. -/
def Anonymous (app : Params) (s : Config) : Prop :=
  ∀ (i : ℕ) op, s.ops[i]? = some op → ∃ r, op = .request r ∧
    ∀ front si, front <+: s.trace i → ¬ (loadSession app.server r).Reaches front (.inr (some si))

theorem Anonymous.of_extends (hanonymous : Anonymous app after) (hextends : s.Extends after) :
    Anonymous app s := by
  intro i op hop
  obtain ⟨r, rfl, hnone⟩ := hanonymous i op (hextends.op hop)
  exact ⟨r, rfl, fun front si hfront => hnone front si (hfront.trans (hextends.trace i))⟩

theorem pending_of_anonymous (hgate : app.server.viewRequiresAuth = true)
    (hwf : (machine app).WellFormed s) (hanonymous : Anonymous app s) (i : ℕ) (call : Paste.Call) :
    s.pending? i ≠ some (.paste call) := by
  intro hpending
  obtain ⟨op, hop, hreach⟩ := hwf.reaches_pending hpending
  obtain ⟨r, rfl, hnone⟩ := hanonymous i op hop
  obtain ⟨front, si, hfront, hload⟩ := serve_paste hgate hreach.of_map
  exact hnone front si hfront hload

theorem perform_alike (hgate : app.server.viewRequiresAuth = true) {schedule : List Action}
    {last : Config} (hwf : (machine app).WellFormed s) (halike : Alike s s')
    (hperform : (machine app).perform (fun _ _ => true) s schedule = some last)
    (hanonymous : Anonymous app last) :
    last.store.pasteData = s.store.pasteData ∧
      ∃ last', (machine app).perform (fun _ _ => true) s' schedule = some last' ∧
        last'.store.pasteData = s'.store.pasteData ∧ Alike last last' := by
  induction schedule generalizing s s' with
  | nil =>
      cases hperform
      exact ⟨rfl, s', rfl, rfl, halike⟩
  | cons action rest ih =>
      rw [Machine.perform, if_pos rfl] at hperform
      obtain ⟨next, hact, hrest⟩ := Option.bind_eq_some_iff.mp hperform
      have hextends : s.Extends last := by
        have hfirst : (machine app).Run anyStep s next := .tail .refl trivial hact
        have hrun : (machine app).Run anyStep next last :=
          Machine.run_of_perform (fun _ _ _ => trivial) hrest
        exact (hfirst.trans hrun).extends
      obtain ⟨hkept, next', hact', hkept', halike'⟩ := act_alike halike
        (fun i _ call _ => pending_of_anonymous hgate hwf (hanonymous.of_extends hextends) i call) hact
      obtain ⟨hlast, last', hrest', hlast', hfinal⟩ := ih (hwf.act hact) halike' hrest
      refine ⟨hlast.trans hkept, last', ?_, hlast'.trans hkept', hfinal⟩
      rw [Machine.perform, if_pos rfl, hact']
      exact hrest'

/-- With `VIEW_REQUIRES_AUTH`, requests that are resolved to no session are answered
alike whatever the paste service stores, and leave what it stores as it was. -/
theorem view_gate_hides (hgate : app.server.viewRequiresAuth = true) (hagree : left.Agree right)
    {schedule : List Action} {last : Config}
    (hperform : (machine app).perform (fun _ _ => true) (.initial left) schedule = some last)
    (hanonymous : Anonymous app last) :
    last.store.pasteData = left.pasteData ∧
      ∃ last', (machine app).perform (fun _ _ => true) (.initial right) schedule = some last' ∧
        last'.store.pasteData = right.pasteData ∧
        ∀ i, last'.result? i = last.result? i ∧ last'.trace i = last.trace i := by
  have hstart : Alike (.initial left) (.initial right) := ⟨rfl, rfl, rfl, hagree⟩
  obtain ⟨hkept, last', hperform', hkept', halike⟩ :=
    perform_alike hgate .initial hstart hperform hanonymous
  refine ⟨hkept, last', hperform', hkept', fun i => ⟨?_, ?_⟩⟩
  · rw [Config.result?, Config.result?, halike.procs]
  · rw [Config.trace, Config.trace, halike.log]

namespace Sample

/-- The sample application, with views for people who are logged in. -/
def gated : Params :=
  { Sample.app with server := { Sample.server with viewRequiresAuth := true } }

/-- The sample state, with an identifier handed out and a body stored. -/
def filled : Store :=
  { store with
    system :=
      { store.system with
        drawn := [System.Sample.id]
        redis := fun _ => some ⟨ascii "sealed", clock + 1⟩ } }

/-- A view of that paste, without a session. -/
def view : Request where
  method := .get
  target := ascii "/api/v1/pastes/" ++ System.Sample.id.text
  escaped := by decide
  rawQuery := []
  cookie := none
  csrfToken := []
  accept := []
  remoteHost := ascii "192.0.2.1"
  forwardedFor := []
  body := .malformed

end Sample

theorem view_gate_hides_sample :
    ∃ last last', (machine Sample.gated).perform (fun _ _ => true) (.initial Sample.store)
        [.invoke (.request Sample.view)] = some last ∧
      (machine Sample.gated).perform (fun _ _ => true) (.initial Sample.filled)
        [.invoke (.request Sample.view)] = some last' ∧
      Sample.status? last 0 = some 401 ∧ last'.result? 0 = last.result? 0 := by
  have hperform : (machine Sample.gated).perform (fun _ _ => true) (.initial Sample.store)
      [.invoke (.request Sample.view)] = some ((Interleaving.Config.initial Sample.store).invoke
        (.request Sample.view) (program Sample.gated (.request Sample.view))) := rfl
  have hanonymous : Anonymous Sample.gated ((Interleaving.Config.initial Sample.store).invoke
      (.request Sample.view) (program Sample.gated (.request Sample.view))) := by
    intro i op hop
    rcases Config.ops_invoke _ hop with hop | ⟨-, rfl⟩
    · simp [Config.initial] at hop
    · refine ⟨Sample.view, rfl, fun front si _ hload => ?_⟩
      cases hload.2
  have hagree : Sample.store.Agree Sample.filled := ⟨rfl, rfl, rfl, rfl, rfl, rfl⟩
  obtain ⟨-, last', hperform', -, hsame⟩ := view_gate_hides rfl hagree hperform hanonymous
  exact ⟨_, last', hperform, hperform', by decide +kernel, (hsame 0).1⟩

end SecurePastebin.Web
