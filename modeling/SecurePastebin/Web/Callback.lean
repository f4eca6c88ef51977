import SecurePastebin.Auth.SingleUse
import SecurePastebin.Web.Machine
import SecurePastebin.Web.Points

/-!
# Whose login a callback completes

The state of a started login is looked up in a store that all user agents share;
nothing in the saved record, and nothing in the request that presents the state,
says which user agent has started the login.
-/

namespace SecurePastebin.Web

open Text Uuid Process Interleaving
open Auth (oidcKey)

/-! ## What a callback with a cookie was told -/

section Points

variable {srv : Server} {r : Request} {trace : List Step} {response : Response}

theorem oidcCallback_cookie (hreach : (oidcCallback srv r).Reaches trace (.inr response))
    (hcookie : response.cookie ≠ none) :
    ∃ record rest, trace =
      ⟨.auth (.statesGetDel (oidcKey (r.query "state"))), .ok (some record)⟩ :: rest := by
  rcases oidcCallback_result hreach with hrefused | ⟨flow, sub, tail, u, sess, rfl, hcomplete, -, -⟩
  · exact absurd hrefused.2 hcookie
  · rcases Auth.complete_reaches hcomplete with ⟨-, ⟨⟩⟩ | hpoint | ⟨err, ⟨⟩⟩ |
      ⟨record, value, now, rest, -, rfl, -⟩
    · cases hpoint
    · exact ⟨record, _, rfl⟩

/-- A callback that sets a cookie has taken a saved state. -/
theorem serve_callback_cookie (htarget : targetOf r = .api .oidcCallback)
    (hreach : (serve srv r).Reaches trace (.inr response)) (hcookie : response.cookie ≠ none) :
    ∃ front record rest, trace = front ++
      ⟨.auth (.statesGetDel (oidcKey (r.query "state"))), .ok (some record)⟩ :: rest := by
  rcases serve_reaches hreach with ⟨_, -, ⟨⟩⟩ | ⟨info, front, tail, rfl, -, hrest⟩
  rcases hrest with ⟨refusal, hrefusal, -, hpoint⟩ | ⟨-, hdispatch⟩
  · cases hpoint
    exact absurd (csrf_refusal hrefusal).2 hcookie
  · rw [dispatch, htarget] at hdispatch
    obtain ⟨record, rest, rfl⟩ := oidcCallback_cookie hdispatch hcookie
    exact ⟨front, record, rest, rfl⟩

end Points

/-! ## User agents -/

/-- Thread `j` has saved the state in the course of a start. -/
def IssuedBy (s : Config) (j : ℕ) (state : Bytes) : Prop :=
  ∃ r record ttl reply, s.ops[j]? = some (.request r) ∧ targetOf r = .api .oidcStart ∧
    s.Did j (.auth (.statesSet (oidcKey state) record ttl)) reply

section Agents

variable {Agent : Type} (agent : ℕ → Agent)

/-- The steps in which no user agent takes the state of a login that another one
has started and that is still open. -/
def OwnStates (s : Config) : Action → Prop
  | .advance i (.auth choice) => choice.executes = true →
      ∀ key, s.pending? i = some (.auth (.statesGetDel key)) →
        ∀ j record ttl reply, s.Did j (.auth (.statesSet key record ttl)) reply →
          agent j ≠ agent i → s.store.states.find s.store.clock key = none
  | _ => True

variable {agent} {app : Params} {store : Store} {mid s : Config} {i j : ℕ} {r : Request}
  {response : Response}

/-- As long as no open login is taken over, a callback with a state that another
user agent was given sets no cookie. -/
theorem callback_own_login (hpast : (machine app).Run (OwnStates agent) (.initial store) mid)
    (hissued : IssuedBy mid j (r.query "state")) (hlater : mid.ops.length ≤ i)
    (hrun : (machine app).Run (OwnStates agent) mid s) (htarget : targetOf r = .api .oidcCallback)
    (hagents : agent j ≠ agent i) (hreturned : s.Returned i (.request r) (.response response)) :
    response.cookie = none := by
  by_contra hcookie
  have hwf := hpast.wellFormed .initial
  obtain ⟨found, hserve, ⟨⟩⟩ := Proc.reaches_map_result.mp
    ((hrun.wellFormed hwf).reaches_returned hreturned)
  obtain ⟨front, record, rest, htrace⟩ := serve_callback_cookie htarget hserve hcookie
  -- the moment at which the callback takes the state: it was saved before
  obtain ⟨before, choice, after, proc, hbefore, hallowed, -, hpending, hexec, -, -⟩ :=
    hrun.at_entry front _ rest (by rw [hwf.trace_eq_nil hlater]; exact List.nil_prefix) htrace
  obtain ⟨_, saved, ttl, reply, -, -, hdid⟩ := hissued
  obtain ⟨_, rfl, htaken, -⟩ := exec_auth hexec
  have hgone := hallowed (Auth.executes_of_taken htaken) _ hpending j saved ttl reply
    (hbefore.extends.did hdid) hagents
  obtain ⟨entry, hentry, -⟩ := Auth.live_of_taken htaken
  exact absurd (hentry.symm.trans hgone) nofun

end Agents

namespace Sample

/-- The sample application, with the login at an identity provider. -/
def federated : Params :=
  { app with server := { server with oidc := some Auth.Flow.Sample.flow, oidcEnabled := true } }

/-- No accounts yet. -/
def nobody : Store := { store with users := Table.empty }

def oidcRequest (target : Bytes) (hescaped : (percentDecode false target).isSome = true)
    (rawQuery : Bytes) : Request where
  method := .get
  target := target
  escaped := hescaped
  rawQuery := rawQuery
  cookie := none
  csrfToken := []
  accept := []
  remoteHost := ascii "192.0.2.1"
  forwardedFor := []
  body := .malformed

def oidcStart : Request := oidcRequest (ascii "/api/v1/auth/oidc/start") (by decide) []

/-- A callback with the state of that start. -/
def oidcCallback : Request :=
  oidcRequest (ascii "/api/v1/auth/oidc/callback") (by decide)
    (ascii "state=" ++ Auth.Flow.Sample.state ++ ascii "&code=code")

/-- The first request starts a login. -/
def starting : List Action :=
  [.token (List.replicate 32 1), .token (List.replicate 32 2), .token (List.replicate 32 3),
    .ok, .ok].map fun choice => .advance 0 (.auth choice)

/-- The second one completes it. -/
def completing : List Action :=
  ([.ok, .ok, .exchanged (.ok (some (ascii "token"))), .identified (.ok Auth.Flow.Sample.idToken),
      .uuid (.filled 1), .ok, .ok].map fun choice =>
    .advance 1 (.auth choice)) ++
    [.ok, .token (List.replicate 32 4), .token (List.replicate 32 5), .ok, .ok].map fun choice =>
      .advance 1 (.session choice)

/-- The first thread has saved the state. -/
def saved (s : Config) : Bool :=
  s.ops.length = 1 && s.log.any fun entry =>
    match entry with
    | (j, ⟨.auth (.statesSet key _ _), _⟩) => j = 0 && key = oidcKey Auth.Flow.Sample.state
    | _ => false

theorem issuedBy_of_saved {s : Config} (hop : s.ops[0]? = some (.request oidcStart))
    (hsaved : saved s = true) : IssuedBy s 0 (oidcCallback.query "state") := by
  simp only [saved, Bool.and_eq_true, List.any_eq_true] at hsaved
  obtain ⟨-, ⟨j, entry⟩, hentry, hmatch⟩ := hsaved
  split at hmatch
  · rename_i k key record ttl reply heq
    cases heq
    simp only [Bool.and_eq_true, decide_eq_true_eq] at hmatch
    obtain ⟨rfl, rfl⟩ := hmatch
    exact ⟨oidcStart, record, ttl, reply, hop, by decide, hentry⟩
  · cases hmatch

/-- The open logins are left alone altogether. -/
def leaving (s : Config) : Action → Bool
  | .advance i _ =>
      match s.pending? i with
      | some (.auth (.statesGetDel key)) => (s.store.states.find s.store.clock key).isNone
      | _ => true
  | _ => true

theorem ownStates_of_leaving {s : Config} {action : Action} (hleaving : leaving s action = true) :
    OwnStates id s action := by
  cases action with
  | advance i choice =>
      cases choice with
      | auth =>
          intro _ key hpending _ _ _ _ _ _
          simp only [leaving, hpending] at hleaving
          exact Option.isNone_iff_eq_none.mp hleaving
      | _ => trivial
  | env | invoke => trivial

theorem run_started {allowed : Config → Action → Prop} (hallowed : ∀ op s, allowed s (.invoke op)) :
    (machine federated).Run allowed (.initial nobody)
      ((Interleaving.Config.initial nobody).invoke (.request oidcStart)
        (program federated (.request oidcStart))) := by
  have hact : (machine federated).act (.initial nobody) (.invoke (.request oidcStart)) =
      some ((Interleaving.Config.initial nobody).invoke (.request oidcStart)
        (program federated (.request oidcStart))) := rfl
  exact .tail .refl (hallowed _ _) hact

/-- The callback comes in as the second thread. -/
theorem run_called {allowed : Config → Action → Prop} (hallowed : ∀ op s, allowed s (.invoke op))
    {mid : Config} (hlength : mid.ops.length = 1) :
    (machine federated).Run allowed mid
        (mid.invoke (.request oidcCallback) (program federated (.request oidcCallback))) ∧
      (mid.invoke (.request oidcCallback) (program federated (.request oidcCallback))).ops[1]? =
        some (.request oidcCallback) := by
  have hact : (machine federated).act mid (.invoke (.request oidcCallback)) =
      some (mid.invoke (.request oidcCallback) (program federated (.request oidcCallback))) := rfl
  refine ⟨.tail .refl (hallowed _ _) hact, ?_⟩
  rw [Config.invoke, ← hlength, List.getElem?_append_right le_rfl, Nat.sub_self]
  rfl

end Sample

/-- The second thread has answered with a session cookie. -/
def Sample.signedIn (s : Config) : Bool :=
  match s.result? 1 with
  | some (.response ⟨_, _, _, some (.set ..), _⟩) => true
  | _ => false

/-- Two user agents, one thread each: the first starts a login, the second gets its
session. -/
theorem callback_crosses_agents :
    ∃ mid s response value expires secure,
      (machine Sample.federated).Run anyStep (.initial Sample.nobody) mid ∧
      IssuedBy mid 0 (Sample.oidcCallback.query "state") ∧ mid.ops.length ≤ 1 ∧
      (machine Sample.federated).Run anyStep mid s ∧
      targetOf Sample.oidcCallback = .api .oidcCallback ∧
      s.Returned 1 (.request Sample.oidcCallback) (.response response) ∧
      response.cookie = some (.set value expires secure) := by
  have hperform : ((machine Sample.federated).perform (fun _ _ => true)
      ((Interleaving.Config.initial Sample.nobody).invoke (.request Sample.oidcStart)
        (program Sample.federated (.request Sample.oidcStart))) Sample.starting).any (fun mid =>
      Sample.saved mid && ((machine Sample.federated).perform (fun _ _ => true)
        (mid.invoke (.request Sample.oidcCallback)
          (program Sample.federated (.request Sample.oidcCallback))) Sample.completing).any
            Sample.signedIn) = true := by decide +kernel
  obtain ⟨mid, hstart, hobs⟩ := Machine.exists_any_run hperform
  rw [Bool.and_eq_true] at hobs
  obtain ⟨hsaved, hobs⟩ := hobs
  obtain ⟨s, hrest, hobs⟩ := Machine.exists_any_run hobs
  have hlength : mid.ops.length = 1 := by
    rw [Sample.saved, Bool.and_eq_true] at hsaved
    exact of_decide_eq_true hsaved.1
  have hinvoke : ∀ op (s : Config), anyStep s (.invoke op : Action) := fun _ _ => trivial
  obtain ⟨hcall, hop⟩ := Sample.run_called hinvoke hlength
  unfold Sample.signedIn at hobs
  split at hobs
  · rename_i status location retryAfter value expires secure content hresult
    exact ⟨mid, s, _, value, expires, secure, (Sample.run_started fun _ _ => trivial).trans hstart,
      Sample.issuedBy_of_saved (hstart.extends.op rfl) hsaved, hlength.le, hcall.trans hrest,
      by decide, (s.returned_iff 1 _ _).mpr ⟨hrest.extends.op hop, hresult⟩, rfl⟩
  · cases hobs

/-- A login that has expired is presented by another user agent. -/
theorem callback_own_login_sample :
    ∃ mid s response,
      (machine Sample.federated).Run (OwnStates id) (.initial Sample.nobody) mid ∧
      IssuedBy mid 0 (Sample.oidcCallback.query "state") ∧
      (machine Sample.federated).Run (OwnStates id) mid s ∧
      s.Returned 1 (.request Sample.oidcCallback) (.response response) ∧ response.cookie = none := by
  have hperform : ((machine Sample.federated).perform Sample.leaving
      ((Interleaving.Config.initial Sample.nobody).invoke (.request Sample.oidcStart)
        (program Sample.federated (.request Sample.oidcStart)))
      (Sample.starting ++ [.env (.elapse 400000000000)])).any (fun mid =>
      Sample.saved mid && ((machine Sample.federated).perform Sample.leaving
        (mid.invoke (.request Sample.oidcCallback)
          (program Sample.federated (.request Sample.oidcCallback)))
        [.advance 1 (.auth .ok)]).any fun s => (Sample.response? s 1).isSome) = true := by
    decide +kernel
  obtain ⟨mid, hstart, hobs⟩ := Machine.exists_run_of_perform
    (fun (_ : Config) (_ : Action) => Sample.ownStates_of_leaving) hperform
  rw [Bool.and_eq_true] at hobs
  obtain ⟨hsaved, hobs⟩ := hobs
  obtain ⟨s, hrest, hobs⟩ := Machine.exists_run_of_perform
    (fun (_ : Config) (_ : Action) => Sample.ownStates_of_leaving) hobs
  have hlength : mid.ops.length = 1 := by
    rw [Sample.saved, Bool.and_eq_true] at hsaved
    exact of_decide_eq_true hsaved.1
  have hinvoke : ∀ op s, OwnStates id s (.invoke op) := fun _ _ => trivial
  obtain ⟨hcall, hop⟩ := Sample.run_called hinvoke hlength
  obtain ⟨response, hresponse⟩ := Option.isSome_iff_exists.mp hobs
  have hpast := (Sample.run_started fun _ _ => trivial).trans hstart
  have hissued := Sample.issuedBy_of_saved (hstart.extends.op rfl) hsaved
  have hreturned := Sample.returned_of_response (hrest.extends.op hop) hresponse
  have hrun := hcall.trans hrest
  exact ⟨mid, s, response, hpast, hissued, hrun, hreturned,
    callback_own_login hpast hissued hlength.le hrun (by decide) (by decide) hreturned⟩

end SecurePastebin.Web
