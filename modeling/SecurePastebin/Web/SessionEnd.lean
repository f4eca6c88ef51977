import SecurePastebin.Session.Resurrection
import SecurePastebin.Web.SessionCalls

/-!
# Reported ends of sessions

A logout, a login and a callback that succeed report the presented session as
ended.  Their calls to delete it may fail, and the failure is ignored; if the
calls are executed, the session is gone for good, unless somebody guesses an
identifier that is being given out.
-/

namespace SecurePastebin.Web

open Text Uuid Base64 Process
open Interleaving
open Session (sessKey)

/-! ## What a success has done -/

/-- The responses that report the end of the presented session. -/
def Succeeds (r : Request) (response : Response) : Prop :=
  (targetOf r = .api .logout ∧ response.status = 204) ∨
    (targetOf r = .api .login ∧ response.status = 200) ∨
    (targetOf r = .api .oidcCallback ∧ response.status = 302)

section Points

variable {srv : Server} {r : Request} {info : Option SessionInfo} {trace : List Step}
  {response : Response} {id : Bytes}

/-- The call to delete the presented session was answered, one way or the other. -/
def AskedToDelete (id : Bytes) (trace : List Step) : Prop :=
  ∃ reply, (⟨.session (.del (sessKey id)), reply⟩ : Step) ∈ trace

/-- The response sets a session whose identifier the thread has drawn. -/
def SetsDrawn (trace : List Step) (response : Response) : Prop :=
  ∃ value expires secure, response.cookie = some (.set value expires secure) ∧
    (⟨.session .randomToken, value⟩ : Step) ∈ trace

theorem allocate_drawn {userId : UUID} {now absoluteExpiry deadline : ℤ} {n : ℕ}
    {sub : List Session.Step} {sess : Auth.Session}
    (hpoint : Session.AllocatePoint userId now absoluteExpiry deadline n sub (.inr (.ok sess))) :
    (⟨.randomToken, sess.id⟩ : Session.Step) ∈ sub := by
  generalize hresult : (Sum.inr (.ok sess) : Session.Call ⊕ Except Auth.Err Auth.Session) = point
    at hpoint
  induction hpoint with
  | done n hsess hearly =>
      cases hresult
      exact List.mem_append_left _ List.mem_cons_self
  | collision _ _ ih => exact List.mem_append_right _ (List.mem_cons_of_mem _ (ih hresult))
  | retry _ _ _ _ _ _ ih =>
      exact List.mem_append_right _ (List.mem_cons_of_mem _ (List.mem_cons_of_mem _ (ih hresult)))
  | _ => cases hresult

/-- The identifier of a created session was drawn. -/
theorem create_drawn {userId : UUID} {idleTTL absoluteTTL : ℤ} {sub : List Session.Step}
    {sess : Auth.Session}
    (hreach : (Session.create userId idleTTL absoluteTTL).Reaches sub (.inr (.ok sess))) :
    (⟨.randomToken, sess.id⟩ : Session.Step) ∈ sub := by
  generalize hpoint : (Sum.inr (.ok sess) : Session.Call ⊕ Except Auth.Err Auth.Session) = point
    at hreach
  cases Session.create_point hreach with
  | attempt httl hdeadline hallocate =>
      subst hpoint
      exact List.mem_cons_of_mem _ (allocate_drawn hallocate)
  | clock | refused | noDeadline => cases hpoint

theorem startSession_ok {u : Auth.User} {sess : Auth.Session}
    (hreach : (startSession srv r u).Reaches trace (.inr (.ok sess))) :
    (r.presented ≠ [] → AskedToDelete r.presented trace) ∧
      (⟨.session .randomToken, sess.id⟩ : Step) ∈ trace := by
  rcases startSession_reaches hreach with ⟨-, -, ⟨⟩⟩ | ⟨front, sub, hreplaced, rfl, hkind⟩
  constructor
  · intro hpresented
    rcases hreplaced with ⟨hempty, -⟩ | ⟨-, reply, rfl⟩
    · exact absurd hempty hpresented
    · exact ⟨reply, List.mem_append_left _ (List.mem_singleton_self _)⟩
  · rcases hkind with ⟨_, ⟨⟩, -⟩ | ⟨_, hpoint, hcreate⟩
    cases hpoint
    exact List.mem_append_right _ (List.mem_map_of_mem (f := sessionCalls.entry)
      (create_drawn hcreate))

theorem logout_ended {si : SessionInfo} (hreach : (logout srv si).Reaches trace (.inr response)) :
    AskedToDelete si.session.id trace := by
  unfold logout at hreach
  rcases Proc.reaches_lift_bind _ hreach with ⟨_, _, -, ⟨⟩, -⟩ |
    ⟨sub, tail, outcome, rfl, hdelete, -⟩
  rcases delete_reaches hdelete with ⟨-, ⟨⟩⟩ | ⟨reply, _, rfl, -⟩
  exact ⟨reply, List.mem_append_left _ (List.mem_singleton_self _)⟩

/-- A request that reports the end of its session has asked for it, and sets no
session but a drawn one. -/
theorem serve_ended (hreach : (serve srv r).Reaches trace (.inr response))
    (hsucceeds : Succeeds r response) :
    (∀ id, r.cookie = some id → id ≠ [] → AskedToDelete id trace) ∧
      (targetOf r ≠ .api .logout → SetsDrawn trace response) := by
  rcases serve_reaches hreach with ⟨_, -, ⟨⟩⟩ | ⟨info, front, tail, rfl, hload, hrest⟩
  have hlow : response.status < 400 := by
    rcases hsucceeds with ⟨-, hstatus⟩ | ⟨-, hstatus⟩ | ⟨-, hstatus⟩ <;> omega
  rcases hrest with ⟨refusal, hrefusal, -, hpoint⟩ | ⟨-, hdispatch⟩
  · cases hpoint
    have := (csrf_refusal hrefusal).1
    omega
  have hstarted : ∀ {u : Auth.User} {sess : Auth.Session} {before after : List Step},
      tail = before ++ after → (startSession srv r u).Reaches after (.inr (.ok sess)) →
      (∃ expires secure, response.cookie = some (.set sess.id expires secure)) →
      (∀ id, r.cookie = some id → id ≠ [] → AskedToDelete id (front ++ tail)) ∧
        (targetOf r ≠ .api .logout → SetsDrawn (front ++ tail) response) := by
    rintro u sess before after rfl hstart ⟨expires, secure, hset⟩
    obtain ⟨hasked, hdrawn⟩ := startSession_ok hstart
    constructor
    · intro id hcookie hid
      have hpresented : r.presented = id := by rw [Request.presented, hcookie, Option.getD_some]
      rw [hpresented] at hasked
      obtain ⟨reply, hmem⟩ := hasked hid
      exact ⟨reply, by simp [hmem]⟩
    · exact fun _ => ⟨sess.id, expires, secure, hset, by simp [hdrawn]⟩
  rcases hsucceeds with ⟨htarget, hstatus⟩ | ⟨htarget, -⟩ | ⟨htarget, -⟩
  · refine ⟨?_, fun hother => absurd htarget hother⟩
    intro id hcookie _
    rw [dispatch, htarget] at hdispatch
    rcases requireAuth_reaches hdispatch with ⟨-, refusal, hpoint, hrefusal⟩ | ⟨si, rfl, hlogout⟩
    · cases hpoint
      omega
    · have hsame : si.session.id = id :=
        Option.some.inj ((cookie_of_load hload).symm.trans hcookie)
      obtain ⟨reply, hmem⟩ := logout_ended hlogout
      rw [hsame] at hmem
      exact ⟨reply, List.mem_append_right _ hmem⟩
  · rw [dispatch, htarget] at hdispatch
    rcases login_result hdispatch with hrefused |
      ⟨_, _, _, _, _, after, u, sess, heq, -, -, hstart, rfl⟩
    · exact absurd hrefused.1 (not_le.mpr hlow)
    · exact hstarted heq hstart ⟨_, _, rfl⟩
  · rw [dispatch, htarget] at hdispatch
    rcases oidcCallback_result hdispatch with hrefused | ⟨_, _, after, u, sess, heq, -, hstart, rfl⟩
    · exact absurd hrefused.1 (not_le.mpr hlow)
    · exact hstarted heq hstart ⟨_, _, rfl⟩

end Points

/-! ## Runs -/

/-- No identifier is drawn that some request has presented, and none is presented
that somebody has drawn and has not given out yet. -/
def Unguessable (s : Config) : Action → Prop
  | .invoke (.request r) => ∀ id j, r.cookie = some id → s.Did j (.session .randomToken) id →
      s.pending? j = none
  | .advance _ (.session choice) => ∀ (raw : Bytes) (j : ℕ) (r : Request), choice = .token raw →
      s.ops[j]? = some (.request r) → r.cookie ≠ some (encode rawURLEncoding raw)
  | _ => True

/-- The calls to delete a session are executed. -/
def Deleting (s : Config) : Action → Prop
  | .advance i (.session choice) =>
      ∀ key, s.pending? i = some (.session (.del key)) → choice.executes = true
  | _ => True

/-- What the reports of a session's end rest on. -/
def Reliable (s : Config) (action : Action) : Prop := Unguessable s action ∧ Deleting s action

/-- Whoever has drawn a presented identifier had done with it before. -/
def Unguessed (s : Config) : Prop :=
  ∀ (i : ℕ) (r : Request) (id : Bytes) (j : ℕ), s.ops[i]? = some (.request r) →
    r.cookie = some id → s.Did j (.session .randomToken) id → j < i ∧ s.pending? j = none

section Runs

variable {app : Params} {store : Store} {s last : Config} {i : ℕ} {r : Request} {id : Bytes}

theorem drawn_of_exec {store next : Session.Store} {token : Bytes} {choice : Session.Choice}
    (hexec : Session.exec store .randomToken choice = some (token, next)) :
    ∃ raw, choice = .token raw ∧ token = encode rawURLEncoding raw := by
  cases choice <;> simp only [Session.exec, Session.answer, Session.failure, Option.map_none,
    reduceCtorEq] at hexec
  split at hexec
  · cases hexec
    exact ⟨_, rfl, rfl⟩
  · cases hexec

theorem pending?_answer_of_ne {s : Config} {i j : ℕ} (hne : j ≠ i) (proc : Port Result)
    (entry : Step) (store : Store) :
    (s.answer i proc entry store).pending? j = s.pending? j := by
  simp only [Config.pending?, Config.answer, List.getElem?_set_ne (Ne.symm hne)]

theorem pending?_invoke_of_lt {s : Config} {j : ℕ} (hlt : j < s.procs.length) (op : Op)
    (proc : Port Result) : (s.invoke op proc).pending? j = s.pending? j := by
  simp only [Config.pending?, Config.invoke, List.getElem?_append_left hlt]

/-- The other calls leave the session store alone. -/
theorem sessionStore_of_exec {P : Crypto.Primitives} {store next : Store} {request : Call}
    {reply : request.Reply} {choice : Choice}
    (hexec : exec P store request choice = some (reply, next))
    (hother : ∀ call, request ≠ .session call) : next.sessionStore = store.sessionStore := by
  obtain ⟨hclock, -, hsessions, -⟩ := exec_frame hexec
  rw [Store.sessionStore, Store.sessionStore, hclock, hsessions hother]

theorem unguessed_of_run (hrun : (machine app).Run Unguessable (.initial store) s) :
    Unguessed s := by
  have hinitial : (machine app).WellFormed (.initial store) := .initial
  refine hrun.induct hinitial ?_ ?_ ?_ ?_
  · intro i r id j hop
    simp [Config.initial] at hop
  · intro s change after _ hs _ _
    exact hs
  · intro s op hpast hs hallowed i r id j hop hcookie hdid
    have hwf := hpast.wellFormed hinitial
    have hlt : j < s.ops.length := hwf.bound _ hdid
    rw [pending?_invoke_of_lt (by rw [hwf.length_procs]; exact hlt)]
    rcases s.ops_invoke hop with hold | ⟨rfl, rfl⟩
    · exact hs i r id j hold hcookie hdid
    · exact ⟨hlt, hallowed id j hcookie hdid⟩
  · intro s k op choice request reply after proc _ hs hallowed _ hpending _ hexec i r id j hop
      hcookie hdid
    rcases Config.did_answer.mp hdid with hdid | ⟨rfl, heq⟩
    · obtain ⟨hlt, hdone⟩ := hs i r id j hop hcookie hdid
      have hne : j ≠ k := by
        rintro rfl
        rw [hdone] at hpending
        cases hpending
      exact ⟨hlt, by rw [pending?_answer_of_ne hne]; exact hdone⟩
    · cases heq
      obtain ⟨found, rfl, hfound, -⟩ := exec_session hexec
      obtain ⟨raw, rfl, rfl⟩ := drawn_of_exec hfound
      exact absurd hcookie (hallowed raw i r rfl hop)

/-- Nobody is about to store a session under a presented identifier. -/
theorem not_creating (hrun : (machine app).Run Unguessable (.initial store) s)
    (hop : s.ops[i]? = some (.request r)) (hcookie : r.cookie = some id) {j : ℕ} {op : Op}
    {record : Session.Record} {deadline : ℤ}
    (hpending : s.pending? j = some (.session (.createSession (sessKey id) record deadline)))
    (hreach : (program app op).Reaches (s.trace j)
      (.inl (.session (.createSession (sessKey id) record deadline)))) : False := by
  obtain ⟨_, -, hcall⟩ := session_call_request hreach
  obtain ⟨drawn, hkey, hmem⟩ := createSession_drawn hcall
  cases Session.sessKey_injective hkey
  have hdid := (s.did_iff_mem_trace _ _ _).mpr hmem
  have hdone := (unguessed_of_run hrun i r id j hop hcookie hdid).2
  rw [hpending] at hdone
  cases hdone

/-- Once gone, a presented session stays gone, and nobody invoked later finds it. -/
theorem gone_of_run (hpast : (machine app).Run Unguessable (.initial store) s)
    (hrun : (machine app).Run Unguessable s last) (hop : s.ops[i]? = some (.request r))
    (hcookie : r.cookie = some id) (hgone : s.store.sessionStore.find (sessKey id) = none) :
    ∀ k found, s.ops.length ≤ k → last.Did k (.session (.hGetAll (sessKey id))) (.ok found) →
      found = none := by
  have hsince := hrun.since (fun s => s.store.sessionStore.find (sessKey id) = none)
    (fun entry => ∀ found, entry = ⟨.session (.hGetAll (sessKey id)), .ok found⟩ → found = none)
    (hpast.wellFormed .initial) hgone ?_ ?_ ?_
  · intro k found hk hdid
    exact hsince.2 k _ hk hdid found rfl
  · intro s change after _ hnone _ henv
    obtain ⟨hclock, hsessions, -⟩ := env_frame henv
    rw [Store.sessionStore, hsessions]
    exact Keyspace.find_eq_none_of_le hclock hnone
  · intro s op _ hnone _
    exact hnone
  · intro s j op choice request reply after proc hmid hnone _ _ hpending hreach hexec
    by_cases hsession : ∃ call, request = .session call
    · obtain ⟨call, rfl⟩ := hsession
      obtain ⟨found, rfl, hfound, -⟩ := exec_session hexec
      refine ⟨Session.absent_after hfound ?_ hnone, ?_⟩
      · rintro ⟨-, hcreates⟩
        cases call with
        | createSession key record deadline =>
            obtain rfl := hcreates.1
            exact not_creating (hpast.trans hmid) (hmid.extends.op hop) hcookie hpending hreach
        | _ => cases hcreates
      · intro value heq
        cases heq
        have hobserved := Session.exec_observed hfound value rfl
        rw [hobserved, hnone, Option.map_none]
    · have hsame := sessionStore_of_exec hexec fun call heq => hsession ⟨call, heq⟩
      refine ⟨by rw [Config.store_answer, hsame]; exact hnone, ?_⟩
      intro value heq
      cases heq
      exact absurd ⟨_, rfl⟩ hsession

theorem Resolved.ne_nil {front : List Step} {sess : Auth.Session}
    (hresolved : Resolved r front sess) (hcookie : r.cookie = some id) : id ≠ [] := by
  obtain ⟨id', sub, hcookie', -, hget⟩ := hresolved
  cases Option.some.inj (hcookie.symm.trans hcookie')
  obtain ⟨outcome, hpoint, heq⟩ := Session.get_result hget
  cases hpoint with
  | found hid => exact hid
  | empty | failed | missing | malformed | expiredDone => cases heq

theorem unguessable {start : Config} (hrun : (machine app).Run Reliable start s) :
    (machine app).Run Unguessable start s :=
  hrun.weaken fun _ _ hreliable => hreliable.1

/-- The moment at which a thread's call to delete has been executed. -/
theorem exists_gone (hrun : (machine app).Run Reliable (.initial store) s)
    (hop : s.ops[i]? = some (.request r)) (hasked : AskedToDelete id (s.trace i)) :
    ∃ mid, (machine app).Run Reliable (.initial store) mid ∧ (machine app).Run Reliable mid s ∧
      mid.ops[i]? = some (.request r) ∧ mid.store.sessionStore.find (sessKey id) = none := by
  obtain ⟨reply, hmem⟩ := hasked
  obtain ⟨front, back, htrace⟩ := List.append_of_mem hmem
  obtain ⟨before, choice, after, proc, hbefore, hallowed, -, hpending, hexec, hact, hrest⟩ :=
    hrun.at_entry front _ back List.nil_prefix htrace
  obtain ⟨found, rfl, hfound, -⟩ := exec_session hexec
  refine ⟨_, hbefore.tail hallowed hact, hrest, ?_, ?_⟩
  · obtain ⟨op, hop', -⟩ :=
      (hbefore.wellFormed .initial).reaches_pending hpending
    have hsame := ((Config.extends_answer i proc _ after).trans hrest.extends).op hop'
    rw [Config.ops_answer, hop', ← hsame, hop]
  · have hstore := Session.exec_store hfound
    rw [if_pos (hallowed.2 _ hpending)] at hstore
    rw [Config.store_answer, hstore]
    exact Keyspace.find_eq_none (Keyspace.del_self ..) _

/-- As long as the calls to delete are executed and nobody guesses: once a logout, a
login or a callback has reported success, no request that comes in later is resolved
to the session it presented, and a session it sets is another one. -/
theorem reported_end_is_real {response : Response}
    (hrun : (machine app).Run Reliable (.initial store) s)
    (hreturned : s.Returned i (.request r) (.response response))
    (hsucceeds : Succeeds r response) (hcookie : r.cookie = some id) :
    (∀ (last : Config) (k : ℕ) (r' : Request) front info, (machine app).Run Reliable s last →
        s.ops.length ≤ k → last.ops[k]? = some (.request r') → r'.cookie = some id →
        front <+: last.trace k → (loadSession app.server r').Reaches front (.inr info) →
        info = none) ∧
      (targetOf r ≠ .api .logout →
        ∃ value expires secure, response.cookie = some (.set value expires secure) ∧ value ≠ id) := by
  have hwf := hrun.wellFormed .initial
  obtain ⟨found, hserve, ⟨⟩⟩ := Proc.reaches_map_result.mp
    (hwf.reaches_returned hreturned)
  obtain ⟨hasked, hset⟩ := serve_ended hserve hsucceeds
  constructor
  · intro last k r' front info hlater hk hop' hcookie' hfront hload
    cases info with
    | none => rfl
    | some si =>
        exfalso
        generalize hat : (Sum.inr (some si) : Call ⊕ Option SessionInfo) = point at hload
        cases loadSession_reaches hload with
        | accepted tail hresolved henabled =>
            obtain ⟨mid, hpast, hrest, hop, hgone⟩ :=
              exists_gone hrun hreturned.1 (hasked id hcookie (hresolved.ne_nil hcookie'))
            obtain ⟨_, record, time, hid, -, -, rfl⟩ := hresolved.found
            cases Option.some.inj (hcookie'.symm.trans hid)
            have hfound : last.Did k (.session (.hGetAll (sessKey id))) (.ok (some record)) := by
              refine (last.did_iff_mem_trace _ _ _).mpr (hfront.subset ?_)
              simp
            have hlength := hrest.extends.ops.length_le.trans hk
            cases gone_of_run (unguessable hpast) (unguessable (hrest.trans hlater)) hop hcookie hgone
              k _ hlength hfound
        | _ => cases hat
  · intro hother
    obtain ⟨value, expires, secure, hvalue, hmem⟩ := hset hother
    refine ⟨value, expires, secure, hvalue, ?_⟩
    rintro rfl
    have hdrawn := (s.did_iff_mem_trace _ _ _).mpr hmem
    exact absurd (unguessed_of_run (unguessable hrun) i r value i hreturned.1 hcookie hdrawn).1
      (lt_irrefl i)

end Runs

namespace Sample

/-- Asking who one is, with the sample session. -/
def whoami : Request where
  method := .get
  target := ascii "/api/v1/auth/me"
  escaped := by decide
  rawQuery := []
  cookie := some session.id
  csrfToken := []
  accept := []
  remoteHost := ascii "192.0.2.1"
  forwardedFor := []
  body := .malformed

/-- Every session call is executed, and nothing is drawn. -/
def executing (_ : Config) : Action → Bool
  | .invoke _ => false
  | .advance _ (.session .ok) => true
  | .advance _ (.session _) => false
  | _ => true

theorem reliable_of_executing {s : Config} {action : Action} (hexecuting : executing s action = true) :
    Reliable s action := by
  cases action with
  | env => exact ⟨trivial, trivial⟩
  | invoke op => cases hexecuting
  | advance i choice =>
      cases choice with
      | session choice =>
          cases choice with
          | ok => exact ⟨nofun, fun _ _ => rfl⟩
          | _ => cases hexecuting
      | _ => exact ⟨trivial, trivial⟩

theorem run_invoked_reliable (r : Request) :
    (machine app).Run Reliable (.initial store) (invoked r) := by
  have hact : (machine app).act (.initial store) (.invoke (.request r)) = some (invoked r) := rfl
  have hallowed : Unguessable (.initial store) (.invoke (.request r)) := by
    intro id j _ hdid
    cases hdid
  exact .tail .refl ⟨hallowed, trivial⟩ hact

end Sample

/-- Who is told who they are has a session. -/
theorem accepted_of_me {srv : Server} {r : Request} {trace : List Step} {response : Response}
    (htarget : targetOf r = .api .me) (hreach : (serve srv r).Reaches trace (.inr response))
    (hstatus : response.status = 200) :
    ∃ front si, front <+: trace ∧ (loadSession srv r).Reaches front (.inr (some si)) := by
  rcases serve_reaches hreach with ⟨_, -, ⟨⟩⟩ | ⟨info, front, tail, rfl, hload, hrest⟩
  rcases hrest with ⟨refusal, hrefusal, -, hpoint⟩ | ⟨-, hdispatch⟩
  · cases hpoint
    have := (csrf_refusal hrefusal).1
    omega
  · rw [dispatch, htarget] at hdispatch
    rcases requireAuth_reaches hdispatch with ⟨-, refusal, hpoint, hrefusal⟩ | ⟨si, rfl, -⟩
    · cases hpoint
      omega
    · exact ⟨front, si, List.prefix_append _ _, hload⟩

/-- The call to delete fails; the logout reports success, and the session is accepted
again. -/
theorem logout_leaves_session :
    ∃ s last response front si, (machine Sample.app).Run anyStep (.initial Sample.store) s ∧
      s.Returned 0 (.request Sample.logout) (.response response) ∧
      Succeeds Sample.logout response ∧
      (machine Sample.app).Run anyStep s last ∧ s.ops.length ≤ 1 ∧
      last.ops[1]? = some (.request Sample.whoami) ∧
      Sample.whoami.cookie = Sample.logout.cookie ∧ front <+: last.trace 1 ∧
      (loadSession Sample.app.server Sample.whoami).Reaches front (.inr (some si)) := by
  have hperform : ((machine Sample.app).perform (fun _ _ => true) (Sample.invoked Sample.logout)
      (Sample.resolving 0 ++ [.advance 0 (.session (.fail "connection refused")),
        .advance 0 (.auth .ok), .advance 0 (.auth .ok)])).any (fun s =>
      s.ops.length = 1 && Sample.status? s 0 = some 204 &&
        ((machine Sample.app).perform (fun _ _ => true)
          (s.invoke (.request Sample.whoami) (program Sample.app (.request Sample.whoami)))
          (Sample.resolving 1)).any fun last => Sample.status? last 1 = some 200) = true := by
    decide +kernel
  obtain ⟨s, hrest, hobs⟩ : ∃ s, (machine Sample.app).Run anyStep (Sample.invoked Sample.logout) s ∧ _ :=
    Machine.exists_any_run hperform
  rw [Bool.and_eq_true, Bool.and_eq_true] at hobs
  obtain ⟨⟨hlength, hstatus⟩, hobs⟩ := hobs
  have hlength : s.ops.length = 1 := of_decide_eq_true hlength
  obtain ⟨last, hlast, hobs⟩ := Machine.exists_any_run hobs
  obtain ⟨response, hreturned, hresponse⟩ := Sample.returned_of_status
    (hrest.extends.op rfl) (of_decide_eq_true hstatus)
  have hact : (machine Sample.app).act s (.invoke (.request Sample.whoami)) =
      some (s.invoke (.request Sample.whoami) (program Sample.app (.request Sample.whoami))) := rfl
  have hlater : (machine Sample.app).Run anyStep s last :=
    (Machine.Run.tail .refl trivial hact).trans hlast
  have hop : last.ops[1]? = some (.request Sample.whoami) := by
    refine hlast.extends.op ?_
    rw [Config.invoke, ← hlength, List.getElem?_append_right le_rfl, Nat.sub_self]
    rfl
  have hrun := (Sample.run_invoked Sample.logout).trans hrest
  obtain ⟨told, htold, hok⟩ := Sample.returned_of_status hop (of_decide_eq_true hobs)
  obtain ⟨found, hserve, ⟨⟩⟩ := Proc.reaches_map_result.mp
    (((hrun.trans hlater).wellFormed .initial).reaches_returned htold)
  obtain ⟨front, si, hfront, hload⟩ := accepted_of_me (by decide) hserve hok
  exact ⟨s, last, response, front, si, hrun, hreturned, .inl ⟨by decide, hresponse⟩, hlater,
    hlength.le, hop, rfl, hfront, hload⟩

theorem reported_end_is_real_sample :
    ∃ s response, (machine Sample.app).Run Reliable (.initial Sample.store) s ∧
      s.Returned 0 (.request Sample.logout) (.response response) ∧
      Succeeds Sample.logout response ∧
      ∀ (last : Config) (k : ℕ) (r : Request) front info,
        (machine Sample.app).Run Reliable s last → s.ops.length ≤ k →
        last.ops[k]? = some (.request r) → r.cookie = some Sample.session.id →
        front <+: last.trace k → (loadSession Sample.app.server r).Reaches front (.inr info) →
        info = none := by
  have hperform : ((machine Sample.app).perform Sample.executing (Sample.invoked Sample.logout)
      (Sample.resolving 0 ++
        [.advance 0 (.session .ok), .advance 0 (.auth .ok), .advance 0 (.auth .ok)])).any
      (fun s => Sample.status? s 0 = some 204) = true := by
    decide +kernel
  obtain ⟨s, hrest, hobs⟩ := Machine.exists_run_of_perform
    (fun (_ : Config) (_ : Action) => Sample.reliable_of_executing) hperform
  have hrun := (Sample.run_invoked_reliable Sample.logout).trans hrest
  obtain ⟨response, hreturned, hstatus⟩ := Sample.returned_of_status
    (hrest.extends.op rfl) (of_decide_eq_true hobs)
  have hsucceeds : Succeeds Sample.logout response := .inl ⟨by decide, hstatus⟩
  exact ⟨s, response, hrun, hreturned, hsucceeds,
    (reported_end_is_real hrun hreturned hsucceeds rfl).1⟩

end SecurePastebin.Web
