import SecurePastebin.Web.Csrf
import SecurePastebin.Web.Grammar

/-!
# Which session calls a request makes

A request reads, touches or drops the session it presents while it is resolved;
after that, a logout deletes it, and a login replaces it by one under an
identifier of its own drawing.
-/

namespace SecurePastebin.Web

open Text Uuid Process Interleaving
open Session (sessKey)

variable {srv : Server} {r : Request} {info : Option SessionInfo} {trace : List Step}
  {response : Response}

/-- The requests that start a session. -/
def Request.startsSession (r : Request) : Prop :=
  targetOf r = .api .login ∨ targetOf r = .api .oidcCallback

inductive SessionCall (srv : Server) (r : Request) : List Step → Session.Call → Prop
  | getting {id : Bytes} {sub : List Session.Step} {call : Session.Call}
      (hcookie : r.cookie = some id) (hget : (Session.get id).Reaches sub (.inl call)) :
      SessionCall srv r (sub.map sessionCalls.entry) call
  | dropping {front : List Step} {sess : Auth.Session} {reply : Except Auth.Err Auth.User}
      (hresolved : Resolved r front sess) (hunwelcome : Unwelcome reply) :
      SessionCall srv r (front ++ [⟨.auth (.usersGetByID sess.userId), reply⟩])
        (.del (sessKey sess.id))
  | touching {front : List Step} {sess : Auth.Session} {user : Auth.User}
      {sub : List Session.Step} {call : Session.Call} (hresolved : Resolved r front sess)
      (htouch : (Session.touch sess.id srv.sessionIdleTTL).Reaches sub (.inl call)) :
      SessionCall srv r
        (front ++ ⟨.auth (.usersGetByID sess.userId), .ok user⟩ :: sub.map sessionCalls.entry) call
  | leaving {front : List Step} {si : SessionInfo} (htarget : targetOf r = .api .logout)
      (hload : (loadSession srv r).Reaches front (.inr (some si))) :
      SessionCall srv r front (.del (sessKey si.session.id))
  | starting {front tail : List Step} {u : Auth.User} {call : Session.Call}
      (hstarts : r.startsSession)
      (hstart : (startSession srv r u).Reaches tail (.inl (.session call))) :
      SessionCall srv r (front ++ tail) call

theorem startSession_bind_call {u : Auth.User} {call : Session.Call}
    {next : Except Auth.Err Auth.Session → Port Response}
    (hnext : ∀ outcome, ∃ response, next outcome = .ret response)
    (hreach : (startSession srv r u >>= next).Reaches trace (.inl (.session call))) :
    (startSession srv r u).Reaches trace (.inl (.session call)) := by
  rw [Proc.reaches_bind] at hreach
  rcases hreach with ⟨_, hstart, hpoint⟩ | ⟨outcome, front, tail, rfl, -, hrest⟩
  · cases hpoint
    exact hstart
  · obtain ⟨_, hret⟩ := hnext outcome
    rw [hret] at hrest
    cases hrest.2

theorem login_session_call {call : Session.Call}
    (hreach : (login srv r info).Reaches trace (.inl (.session call))) :
    ∃ front tail u, trace = front ++ tail ∧
      (startSession srv r u).Reaches tail (.inl (.session call)) := by
  unfold login at hreach
  split_ifs at hreach
  · cases hreach.2
  split at hreach
  · cases hreach.2
  split_ifs at hreach
  · cases hreach.2
  rcases limited_reaches hreach with ⟨_, hpoint, hlimiting⟩ | ⟨_, ⟨⟩, -⟩ |
    ⟨front, tail, rfl, -, hnext⟩
  · cases hpoint
    cases hlimiting
  · rcases Proc.reaches_lift_bind _ hnext with ⟨_, _, -, ⟨⟩, -⟩ |
      ⟨sub, rest, outcome, rfl, -, hrest⟩
    cases outcome with
    | error err => cases hrest.2
    | ok u =>
        refine ⟨front ++ sub.map authCalls.entry, rest, u, by rw [List.append_assoc], ?_⟩
        exact startSession_bind_call (fun outcome => by cases outcome <;> exact ⟨_, rfl⟩) hrest

theorem oidcCallback_session_call {call : Session.Call}
    (hreach : (oidcCallback srv r).Reaches trace (.inl (.session call))) :
    ∃ front tail u, trace = front ++ tail ∧
      (startSession srv r u).Reaches tail (.inl (.session call)) := by
  unfold oidcCallback at hreach
  split at hreach
  · cases hreach.2
  dsimp only at hreach
  split_ifs at hreach
  · cases hreach.2
  rcases Proc.reaches_lift_bind _ hreach with ⟨_, _, -, ⟨⟩, -⟩ |
    ⟨sub, rest, outcome, rfl, -, hrest⟩
  cases outcome with
  | error err =>
      dsimp only at hrest
      split_ifs at hrest <;> cases hrest.2
  | ok u =>
      refine ⟨sub.map authCalls.entry, rest, u, rfl, ?_⟩
      exact startSession_bind_call (fun outcome => by cases outcome <;> exact ⟨_, rfl⟩) hrest

theorem logout_session_call {si : SessionInfo} {call : Session.Call}
    (hreach : (logout srv si).Reaches trace (.inl (.session call))) :
    trace = [] ∧ call = .del (sessKey si.session.id) := by
  unfold logout at hreach
  rcases Proc.reaches_lift_bind _ hreach with ⟨sub, _, rfl, hpoint, hdelete⟩ |
    ⟨_, _, _, -, -, hrest⟩
  · cases hpoint
    rcases delete_reaches hdelete with ⟨rfl, hcall⟩ | ⟨_, _, -, ⟨⟩⟩
    cases hcall
    exact ⟨rfl, rfl⟩
  · rcases hrest with ⟨-, hpoint⟩ | ⟨_, _, -, ⟨-, hpoint⟩ | ⟨_, _, -, -, hpoint⟩⟩ <;> cases hpoint

theorem serve_session_call {call : Session.Call}
    (hreach : (serve srv r).Reaches trace (.inl (.session call))) : SessionCall srv r trace call := by
  rcases serve_reaches hreach with ⟨request, hload, hpoint⟩ | ⟨info, front, tail, rfl, hload, hrest⟩
  · cases hpoint
    generalize hat : (Sum.inl (.session call) : Call ⊕ Option SessionInfo) = point at hload
    cases loadSession_reaches hload with
    | getting hcookie hget =>
        cases hat
        exact .getting hcookie hget
    | dropping hresolved hunwelcome hdelete =>
        cases hat
        rcases delete_reaches hdelete with ⟨rfl, hcall⟩ | ⟨_, _, -, ⟨⟩⟩
        cases hcall
        exact .dropping hresolved hunwelcome
    | touching hresolved henabled htouch =>
        cases hat
        exact .touching hresolved htouch
    | lookup | anonymous | unresolved | dropped | accepted => cases hat
  · rcases hrest with ⟨_, -, -, ⟨⟩⟩ | ⟨-, hdispatch⟩
    rcases dispatch_call hdispatch with hcall | ⟨endpoint, htarget, hcall, hserve⟩
    · rcases hcall with heq | heq | heq <;> cases heq
    · rcases hcall with rfl | rfl | rfl
      · rcases requireAuth_reaches hserve with ⟨-, _, ⟨⟩, -⟩ | ⟨si, rfl, hlogout⟩
        obtain ⟨rfl, rfl⟩ := logout_session_call hlogout
        rw [List.append_nil]
        exact .leaving htarget hload
      · obtain ⟨middle, back, u, rfl, hstart⟩ := login_session_call hserve
        rw [← List.append_assoc]
        exact .starting (.inl htarget) hstart
      · obtain ⟨middle, back, u, rfl, hstart⟩ := oidcCallback_session_call hserve
        rw [← List.append_assoc]
        exact .starting (.inr htarget) hstart

/-- Only requests make session calls. -/
theorem session_call_request {app : Params} {op : Op} {call : Session.Call}
    (hreach : (program app op).Reaches trace (.inl (.session call))) :
    ∃ r, op = .request r ∧ SessionCall app.server r trace call := by
  cases op with
  | request r => exact ⟨r, rfl, serve_session_call hreach.of_map⟩
  | command | sweep =>
      obtain ⟨_, _, -, heq, -⟩ := (Proc.reaches_lift_call ..).mp
        hreach.of_map
      cases heq

/-! ## Under whose key -/

/-- The session that was found is the one presented. -/
theorem Resolved.id_eq {front : List Step} {sess : Auth.Session}
    (hresolved : Resolved r front sess) : r.cookie = some sess.id := by
  obtain ⟨id, record, _, hcookie, hdecode, -, -⟩ := hresolved.found
  rw [hcookie, (Session.decodeRecord_eq_ok hdecode).1]

theorem cookie_of_load {si : SessionInfo}
    (hload : (loadSession srv r).Reaches trace (.inr (some si))) :
    r.cookie = some si.session.id := by
  generalize hat : (Sum.inr (some si) : Call ⊕ Option SessionInfo) = point at hload
  cases loadSession_reaches hload with
  | accepted tail hresolved henabled =>
      cases hat
      exact hresolved.id_eq
  | _ => cases hat

/-- A session is stored under an identifier that the thread has drawn. -/
theorem createSession_drawn {key : Bytes} {record : Session.Record} {deadline : ℤ}
    (hcall : SessionCall srv r trace (.createSession key record deadline)) :
    ∃ id, key = sessKey id ∧ (⟨.session .randomToken, id⟩ : Step) ∈ trace := by
  generalize hrequest : Session.Call.createSession key record deadline = call at hcall
  cases hcall with
  | getting hcookie hget =>
      subst hrequest
      cases Session.get_call hget
  | dropping | leaving => cases hrequest
  | touching hresolved htouch =>
      subst hrequest
      generalize hpoint : (Sum.inl (Session.Call.createSession key record deadline) :
        Session.Call ⊕ Except Auth.Err Unit) = point at htouch
      cases Session.touch_point htouch with
      | reading httl hget =>
          cases hpoint
          cases hget
      | _ => cases hpoint
  | @starting front tail u call hstarts hstart =>
      subst hrequest
      rcases startSession_reaches hstart with ⟨-, -, ⟨⟩⟩ | ⟨early, sub, -, rfl, hkind⟩
      rcases hkind with ⟨_, hpoint, hcreate⟩ | ⟨_, ⟨⟩, -⟩
      cases hpoint
      generalize hat : (Sum.inl (Session.Call.createSession key record deadline) :
        Session.Call ⊕ Except Auth.Err Auth.Session) = point at hcreate
      cases Session.create_point hcreate with
      | attempt httl hdeadline hallocate =>
          subst hat
          obtain ⟨sess, -, hdraws, heq⟩ := hallocate.script_inv
          cases heq
          have hdrawn : (⟨.randomToken, sess.id⟩ : Session.Step) ∈ Session.draws sess :=
            List.mem_cons_self
          refine ⟨sess.id, rfl, ?_⟩
          simp only [List.map_cons, List.mem_append, List.mem_cons]
          exact .inr (.inr (.inr (List.mem_map_of_mem (f := sessionCalls.entry)
            (hdraws.subset hdrawn))))
      | clock | refused | noDeadline => cases hat

end SecurePastebin.Web
