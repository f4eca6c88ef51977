import SecurePastebin.Web.Machine
import SecurePastebin.Web.Points

/-!
# The CSRF check

The check looks at the decoded path, the router at the decoded segments, and a
third wrapper at whether there is a session.  The segments determine the path, so
that every route to a state-changing handler falls under all three.
-/

namespace SecurePastebin.Web

open Text Uuid Process Interleaving

/-! ## Paths and segments -/

theorem byteOfHex_slash_left (low : UInt8) : byteOfHex 47 low = none := rfl

theorem byteOfHex_slash_right (high : UInt8) : byteOfHex high 47 = none := by
  unfold byteOfHex
  cases hexValue high <;> rfl

theorem percentDecode_cons {byte : UInt8} (hbyte : byte ≠ 37) (rest : Bytes) :
    percentDecode false (byte :: rest) = (percentDecode false rest).map (byte :: ·) := by
  rw [percentDecode]
  · cases percentDecode false rest <;> rfl
  · exact fun _ _ _ heq => absurd heq hbyte
  · exact fun heq => absurd heq hbyte

/-- A slash is not part of an escape. -/
theorem percentDecode_slash {left right decoded : Bytes}
    (hdecode : percentDecode false (left ++ 47 :: right) = some decoded) :
    ∃ first second, percentDecode false left = some first ∧
      percentDecode false right = some second ∧ decoded = first ++ 47 :: second := by
  induction left using percentDecode.induct generalizing decoded with
  | case1 =>
      rw [List.nil_append, percentDecode_cons (by decide)] at hdecode
      obtain ⟨second, hsecond, heq⟩ := Option.map_eq_some_iff.mp hdecode
      cases heq
      exact ⟨[], second, rfl, hsecond, rfl⟩
  | case2 high low rest ih =>
      simp only [List.cons_append, percentDecode] at hdecode ⊢
      obtain ⟨byte, hbyte, hdecode⟩ := Option.bind_eq_some_iff.mp hdecode
      obtain ⟨tail, htail, heq⟩ := Option.bind_eq_some_iff.mp hdecode
      obtain ⟨first, second, hfirst, hsecond, rfl⟩ := ih htail
      cases heq
      exact ⟨byte :: first, second, by simp [hbyte, hfirst], hsecond, rfl⟩
  | case3 rest hshort =>
      -- an escape cut off by the slash
      exfalso
      match rest, hshort with
      | [], _ =>
          cases right with
          | nil => cases hdecode
          | cons low right => simp [percentDecode, byteOfHex_slash_left] at hdecode
      | [high], _ => simp [percentDecode, byteOfHex_slash_right] at hdecode
      | high :: low :: rest, hshort => exact hshort high low rest rfl
  | case4 byte rest _ hbyte ih =>
      rw [List.cons_append, percentDecode_cons hbyte] at hdecode
      obtain ⟨tail, htail, rfl⟩ := Option.map_eq_some_iff.mp hdecode
      obtain ⟨first, second, hfirst, hsecond, rfl⟩ := ih htail
      exact ⟨byte :: first, second, by rw [percentDecode_cons hbyte, hfirst]; rfl, hsecond, rfl⟩

theorem percentDecode_intercalate {pieces : List Bytes} {decoded : Bytes}
    (hdecode : percentDecode false ([47].intercalate pieces) = some decoded) :
    decoded = [47].intercalate (pieces.map pathUnescape) := by
  induction pieces generalizing decoded with
  | nil =>
      cases hdecode
      rfl
  | cons piece pieces ih =>
      cases pieces with
      | nil =>
          rw [List.intercalate_singleton] at hdecode
          simp [pathUnescape, hdecode]
      | cons next pieces =>
          rw [List.intercalate_cons_cons, List.append_assoc] at hdecode
          obtain ⟨first, second, hfirst, hsecond, rfl⟩ := percentDecode_slash hdecode
          have hpiece : pathUnescape piece = first := by rw [pathUnescape, hfirst, Option.getD_some]
          simp only [ih hsecond, List.map_cons, List.intercalate_cons_cons, List.append_assoc, hpiece,
            List.singleton_append]

/-- The decoded path is made up of the decoded segments. -/
theorem Request.path_eq (r : Request) (hrooted : r.target.head? = some 47) :
    r.path = 47 :: [47].intercalate r.segments := by
  obtain ⟨decoded, hdecoded⟩ := Option.isSome_iff_exists.mp r.escaped
  obtain ⟨rest, hrest⟩ : ∃ rest, r.target = 47 :: rest := by
    cases htarget : r.target with
    | nil =>
        rw [htarget] at hrooted
        cases hrooted
    | cons byte rest =>
        rw [htarget] at hrooted
        cases hrooted
        exact ⟨rest, rfl⟩
  have hsegments : rawSegments r.target = rest.splitOn 47 := by
    simp [rawSegments, hrest, List.splitOn, List.splitOnP_cons_eq_if_modifyHead]
  rw [Request.path, pathUnescape, hdecoded, Option.getD_some, Request.segments, hsegments]
  rw [hrest, percentDecode_cons (by decide)] at hdecoded
  obtain ⟨tail, htail, rfl⟩ := Option.map_eq_some_iff.mp hdecoded
  have hjoined : [47].intercalate (rest.splitOn 47) = rest := List.intercalate_splitOn 47
  rw [← hjoined] at htail
  rw [percentDecode_intercalate htail]

theorem cleanPath_rooted (path : Bytes) : (cleanPath path).head? = some 47 := by
  unfold cleanPath
  dsimp only
  split_ifs <;> rfl

/-- What the router hands to an endpoint is clean and has the endpoint's segments. -/
theorem targetOf_api {r : Request} {endpoint : Endpoint} (htarget : targetOf r = .api endpoint) :
    endpoint = endpointOf r.method r.segments ∧
      (r.method = .connect ∨ r.target.head? = some 47) := by
  unfold targetOf at htarget
  dsimp only at htarget
  generalize hpath : (if r.method = .connect then r.target else cleanPath r.target) = path at htarget
  split_ifs at htarget with hroot hmoved hhealth hready hapi
  cases htarget
  have hsame : path = r.target := not_not.mp hmoved
  refine ⟨by rw [hsame]; rfl, ?_⟩
  by_cases hconnect : r.method = .connect
  · exact .inl hconnect
  · rw [if_neg hconnect] at hpath
    rw [← hsame, ← hpath]
    exact .inr (cleanPath_rooted _)

/-! ## The endpoints under the check -/

/-- The handlers that change something on behalf of the session they are given. -/
def Endpoint.changesState : Endpoint → Bool
  | .logout | .createPaste | .deletePaste _ | .issueChallenge | .verifyChallenge _ => true
  | _ => false

/-- The views that are reached by `POST`, with a session or without one. -/
def Endpoint.postsView : Endpoint → Bool
  | .unlockPaste _ | .verifyPaste _ => true
  | _ => false

theorem boundSegment_eq {before after : List String} {segments : List Bytes} {id : Bytes}
    (hbound : boundSegment before after segments = some id) :
    segments = apiPath before ++ [id] ++ after.map ascii := by
  unfold boundSegment at hbound
  split at hbound
  · split_ifs at hbound with hsegments
    cases hbound
    exact hsegments.2
  · cases hbound

/-- Such an endpoint is reached by a changing method, under the paths of
challenges, pastes, and the logout. -/
theorem endpointOf_guarded {method : Method} {segments : List Bytes} {endpoint : Endpoint}
    (hendpoint : endpoint = endpointOf method segments)
    (hguarded : endpoint.changesState = true ∨ endpoint.postsView = true) :
    (method = .post ∨ method = .delete) ∧
      (segments = apiPath ["auth", "logout"] ∨
        ∃ more, segments = apiPath ["challenges"] ++ more ∨ segments = apiPath ["pastes"] ++ more) := by
  unfold endpointOf at hendpoint
  split at hendpoint
  · refine absurd hguarded ?_
    rw [hendpoint]
    split_ifs
    case neg => split <;> simp [Endpoint.changesState, Endpoint.postsView]
    all_goals simp [Endpoint.changesState, Endpoint.postsView]
  · split at hendpoint
    · rename_i hpost
      refine ⟨.inl hpost, ?_⟩
      split_ifs at hendpoint with hlogin hlogout hchallenges hpastes
      · subst hendpoint
        simp [Endpoint.changesState, Endpoint.postsView] at hguarded
      · exact .inl hlogout
      · exact .inr ⟨[], .inl (by simpa using hchallenges)⟩
      · exact .inr ⟨[], .inr (by simpa using hpastes)⟩
      · split at hendpoint
        · rename_i id hbound
          exact .inr ⟨_, .inl ((boundSegment_eq hbound).trans (List.append_assoc ..))⟩
        · rename_i id _ hbound
          exact .inr ⟨_, .inr ((boundSegment_eq hbound).trans (List.append_assoc ..))⟩
        · rename_i id _ _ hbound
          exact .inr ⟨_, .inr ((boundSegment_eq hbound).trans (List.append_assoc ..))⟩
        · subst hendpoint
          simp [Endpoint.changesState, Endpoint.postsView] at hguarded
    · split at hendpoint
      · rename_i hdelete
        refine ⟨.inr hdelete, ?_⟩
        split at hendpoint
        · rename_i id hbound
          exact .inr ⟨_, .inr ((boundSegment_eq hbound).trans (List.append_assoc ..))⟩
        · subst hendpoint
          simp [Endpoint.changesState, Endpoint.postsView] at hguarded
      · subst hendpoint
        simp [Endpoint.changesState, Endpoint.postsView] at hguarded

theorem head_intercalate (first : UInt8) (piece : Bytes) (more : List Bytes) :
    ([47].intercalate ((first :: piece) :: more)).head? = some first := by
  cases more with
  | nil => simp
  | cons next more => simp [List.intercalate_cons_cons]

/-- The path of a segment list of the API. -/
theorem intercalate_apiPath (piece : Bytes) (more : List Bytes) :
    47 :: [47].intercalate (ascii "api" :: ascii "v1" :: piece :: more) =
      ascii "/api/v1/" ++ [47].intercalate (piece :: more) := by
  rw [List.intercalate_cons_cons, List.intercalate_cons_cons]
  rfl

/-- The requests for such an endpoint are all checked. -/
theorem csrf_checked {r : Request} {endpoint : Endpoint} (htarget : targetOf r = .api endpoint)
    (hguarded : endpoint.changesState = true ∨ endpoint.postsView = true) :
    ¬ (r.method = .get ∨ r.method = .head ∨ r.method = .options) ∧
      ascii "/api/" <+: r.path ∧ csrfExempt r.path = false := by
  obtain ⟨hendpoint, hrooted⟩ := targetOf_api htarget
  obtain ⟨hmethod, hsegments⟩ := endpointOf_guarded hendpoint hguarded
  have hpath : r.path = 47 :: [47].intercalate r.segments := by
    refine r.path_eq (hrooted.resolve_left ?_)
    rcases hmethod with hmethod | hmethod <;> simp [hmethod]
  have hlogin : ascii "/api/v1/auth/login" = ascii "/api/v1/" ++ ascii "auth/login" := by rfl
  have hcallback : ascii "/api/v1/auth/oidc/callback" =
      ascii "/api/v1/" ++ ascii "auth/oidc/callback" := by rfl
  -- what follows the version is the logout, or starts with the letter of the collection
  obtain ⟨tail, htail, hkind⟩ : ∃ tail, r.path = ascii "/api/v1/" ++ tail ∧
      (tail = ascii "auth/logout" ∨ tail.head? = some 99 ∨ tail.head? = some 112) := by
    rcases hsegments with hlogout | ⟨more, hmore | hmore⟩
    · exact ⟨_, by rw [hpath, hlogout]; rfl, .inl rfl⟩
    · exact ⟨_, by rw [hpath, hmore]; exact intercalate_apiPath _ _,
        .inr (.inl (head_intercalate ..))⟩
    · exact ⟨_, by rw [hpath, hmore]; exact intercalate_apiPath _ _,
        .inr (.inr (head_intercalate ..))⟩
  refine ⟨?_, ?_, ?_⟩
  · rcases hmethod with hmethod | hmethod <;> simp [hmethod]
  · rw [htail]
    exact ⟨ascii "v1/" ++ tail, rfl⟩
  · rw [htail, csrfExempt, hlogin, hcallback]
    simp only [List.append_cancel_left_eq, Bool.or_eq_false_iff, decide_eq_false_iff_not]
    rcases hkind with rfl | hkind | hkind
    · decide
    all_goals
      constructor <;>
        · rintro rfl
          cases hkind

/-- A request with a session that passes the check carries the session's token. -/
theorem token_of_csrf {r : Request} {endpoint : Endpoint} {si : SessionInfo}
    (htarget : targetOf r = .api endpoint)
    (hguarded : endpoint.changesState = true ∨ endpoint.postsView = true)
    (hpassed : csrf r (some si) = none) :
    r.csrfToken ≠ [] ∧ r.csrfToken = si.session.csrfToken := by
  obtain ⟨hmethod, hunder, hexempt⟩ := csrf_checked htarget hguarded
  rw [csrf, if_neg hmethod, if_neg (by simp [hunder, hexempt])] at hpassed
  split_ifs at hpassed with htoken
  push Not at htoken
  exact htoken

/-! ## Which handlers are executed -/

/-- The handler behind the gates of such an endpoint, if the gates let a request
with this session through. -/
def handlerOf (srv : Server) (r : Request) (info : Option SessionInfo) :
    Endpoint → Option (Port Response)
  | .logout => info.map (logout srv)
  | .createPaste => info.map (createPaste srv r info)
  | .deletePaste id => info.map fun si => withPathID id (deletePaste srv info si)
  | .issueChallenge => info.map (issueChallenge srv info)
  | .verifyChallenge id => info.map (verifyChallenge srv r id)
  | .unlockPaste id =>
      if srv.viewRequiresAuth && info.isNone then none
      else some (withPathID id (unlockPaste srv r info))
  | .verifyPaste id =>
      if srv.viewRequiresAuth && info.isNone then none
      else some (withPathID id (verifyPaste srv r info))
  | _ => none

variable {srv : Server} {r : Request} {info : Option SessionInfo} {endpoint : Endpoint}
  {trace : List Step} {point : Call ⊕ Response}

theorem requireAuth_reaches {next : SessionInfo → Port Response}
    (hreach : (requireAuth info next).Reaches trace point) :
    (trace = [] ∧ ∃ refusal, point = .inr refusal ∧ refusal.status = 401) ∨
      ∃ si, info = some si ∧ (next si).Reaches trace point := by
  cases info with
  | none => exact .inl ⟨hreach.1, _, hreach.2, rfl⟩
  | some si => exact .inr ⟨si, rfl, hreach⟩

theorem viewGate_reaches {next : Port Response}
    (hreach : (viewGate srv info next).Reaches trace point) :
    (trace = [] ∧ ∃ refusal, point = .inr refusal ∧ refusal.status = 401) ∨
      (srv.viewRequiresAuth && info.isNone) = false ∧ next.Reaches trace point := by
  unfold viewGate at hreach
  split_ifs at hreach with hgate
  · rcases requireAuth_reaches hreach with hrefused | ⟨si, rfl, hnext⟩
    · exact .inl hrefused
    · exact .inr ⟨by simp, hnext⟩
  · exact .inr ⟨by simp [hgate], hreach⟩

/-- At such an endpoint a request is refused for want of a session, or its handler
runs. -/
theorem serveEndpoint_reaches
    (hguarded : endpoint.changesState = true ∨ endpoint.postsView = true)
    (hreach : (serveEndpoint srv r info endpoint).Reaches trace point) :
    (trace = [] ∧ ∃ refusal, point = .inr refusal ∧ refusal.status = 401) ∨
      ∃ program, handlerOf srv r info endpoint = some program ∧ program.Reaches trace point := by
  cases endpoint <;> simp only [Endpoint.changesState, Endpoint.postsView, Bool.false_eq_true,
    or_self] at hguarded
  case logout | issueChallenge | verifyChallenge | createPaste | deletePaste =>
      rcases requireAuth_reaches hreach with hrefused | ⟨si, rfl, hnext⟩
      · exact .inl hrefused
      · exact .inr ⟨_, rfl, hnext⟩
  case unlockPaste | verifyPaste =>
      rcases viewGate_reaches hreach with hrefused | ⟨hgate, hnext⟩
      · exact .inl hrefused
      · exact .inr ⟨_, by rw [handlerOf, hgate]; rfl, hnext⟩

theorem isSome_of_handlerOf {program : Port Response} (hchanges : endpoint.changesState = true)
    (hhandler : handlerOf srv r info endpoint = some program) : info.isSome = true := by
  cases endpoint <;> simp only [Endpoint.changesState, Bool.false_eq_true] at hchanges <;>
    (obtain ⟨si, rfl, -⟩ := Option.map_eq_some_iff.mp hhandler; rfl)

/-! ## Live sessions -/

section Runs

variable {app : Params} {store : Store} {s : Config} {i : ℕ}

/-- The presented session was found in the store, before its end, and its user in
use. -/
def FoundLive (app : Params) (start s : Config) (r : Request) (si : SessionInfo) : Prop :=
  si.user.disabled = false ∧ ∃ id mid found, r.cookie = some id ∧
    (machine app).Run anyStep start mid ∧ (machine app).Run anyStep mid s ∧
    mid.store.sessionStore.find (Session.sessKey id) = some found ∧
    Session.decodeRecord id found.value = .ok si.session ∧
    mid.store.clock < si.session.absoluteExpiry

/-- The calls of a lookup that has found a session. -/
theorem Resolved.found {front : List Step} {sess : Auth.Session} (hresolved : Resolved r front sess) :
    ∃ id record time, r.cookie = some id ∧ Session.decodeRecord id record = .ok sess ∧
      time < sess.absoluteExpiry ∧
      front = [⟨.session (.hGetAll (Session.sessKey id)), .ok (some record)⟩,
        ⟨.session .now, time⟩] := by
  obtain ⟨id, sub, hcookie, rfl, hget⟩ := hresolved
  obtain ⟨outcome, hpoint, heq⟩ := Session.get_result hget
  cases hpoint with
  | found hid hdecode hlive =>
      cases heq
      exact ⟨id, _, _, hcookie, hdecode, hlive, rfl⟩
  | empty | failed | missing | malformed | expiredDone => cases heq

theorem foundLive_of_load (hrun : (machine app).Run anyStep (.initial store) s)
    {front : List Step} {si : SessionInfo} (hfront : front <+: s.trace i)
    (hload : (loadSession app.server r).Reaches front (.inr (some si))) :
    FoundLive app (.initial store) s r si := by
  obtain ⟨back, hback⟩ := hfront
  generalize hpoint : (Sum.inr (some si) : Call ⊕ Option SessionInfo) = point at hload
  cases loadSession_reaches hload with
  | @accepted _ sess user tail hresolved henabled =>
      cases hpoint
      obtain ⟨id, record, time, hcookie, hdecode, hlive, rfl⟩ := hresolved.found
      have htrace : s.trace i = [] ++ ⟨.session (.hGetAll (Session.sessKey id)), .ok (some record)⟩ ::
          ([⟨.session .now, time⟩] ++ ⟨.auth (.usersGetByID sess.userId), .ok user⟩ :: tail ++ back) := by
        rw [← hback]
        simp
      obtain ⟨mid, choice, after, proc, hmid, -, hstart, -, hexec, hact, hrest⟩ :=
        hrun.at_entry _ _ _ List.nil_prefix htrace
      obtain ⟨later, _, _, _, hlater, -, -, -, hread, -, -⟩ :=
        hrest.at_entry [⟨.session (.hGetAll (Session.sessKey id)), .ok (some record)⟩]
          ⟨.session .now, time⟩ _ (by rw [Config.trace_answer_self, hstart]; exact List.prefix_rfl)
          htrace
      obtain ⟨_, -, hfound, -⟩ := exec_session hexec
      obtain ⟨_, -, htime, -⟩ := exec_session hread
      have hfound := Session.exec_observed hfound _ rfl
      have htime : time = later.store.clock := Session.exec_observed htime
      obtain ⟨found, hfind, hvalue⟩ := Option.map_eq_some_iff.mp hfound.symm
      refine ⟨henabled, id, mid, found, hcookie, hmid, ?_, hfind, ?_, ?_⟩
      · exact (Machine.Run.tail .refl trivial hact).trans hrest
      · rw [hvalue]
        exact hdecode
      · calc mid.store.clock
            ≤ (mid.answer i proc ⟨.session (.hGetAll (Session.sessKey id)), .ok (some record)⟩
                after).store.clock := clock_le_of_act hact
          _ ≤ later.store.clock := hlater.le_of_act (fun s => s.store.clock) clock_le_of_act
          _ = time := htime.symm
          _ < _ := hlive
  | _ => cases hpoint

/-- A thread that serves a request stands at a point of its program. -/
theorem exists_point (hwf : (machine app).WellFormed s) (hop : s.ops[i]? = some (.request r)) :
    ∃ point, (serve app.server r).Reaches (s.trace i) point := by
  have hlt : i < s.ops.length := (List.getElem?_eq_some_iff.mp hop).1
  obtain ⟨proc, hproc⟩ : ∃ proc, s.procs[i]? = some proc :=
    ⟨_, List.getElem?_eq_getElem (hwf.length_procs ▸ hlt)⟩
  have hreach := (hwf.follows i _ proc hop hproc).reaches
  cases hhead : proc.head with
  | inl call =>
      rw [hhead] at hreach
      exact ⟨_, hreach.of_map⟩
  | inr result =>
      rw [hhead] at hreach
      obtain ⟨response, hresponse, -⟩ := Proc.reaches_map_result.mp hreach
      exact ⟨_, hresponse⟩

/-- The state-changing handlers, and with a session the views that take a form,
run only for a request that was resolved to a live session and carries that
session's token: before that, such a request is still being resolved, and
otherwise it is refused without a call. -/
theorem csrf_coverage (hrun : (machine app).Run anyStep (.initial store) s)
    (hop : s.ops[i]? = some (.request r)) (htarget : targetOf r = .api endpoint)
    (hguarded : endpoint.changesState = true ∨ endpoint.postsView = true) :
    ∃ point, (serve app.server r).Reaches (s.trace i) point ∧
      ((∃ call, point = .inl call ∧ (loadSession app.server r).Reaches (s.trace i) (.inl call)) ∨
        (∃ info refusal, (loadSession app.server r).Reaches (s.trace i) (.inr info) ∧
          point = .inr refusal ∧ (refusal.status = 401 ∨ refusal.status = 403)) ∨
        ∃ info front tail program, s.trace i = front ++ tail ∧
          (loadSession app.server r).Reaches front (.inr info) ∧
          handlerOf app.server r info endpoint = some program ∧ program.Reaches tail point ∧
          (endpoint.changesState = true → info.isSome = true) ∧
          ∀ si, info = some si → r.csrfToken ≠ [] ∧ r.csrfToken = si.session.csrfToken ∧
            FoundLive app (.initial store) s r si) := by
  obtain ⟨point, hat⟩ := exists_point (hrun.wellFormed .initial) hop
  refine ⟨point, hat, ?_⟩
  rcases serve_reaches hat with ⟨call, hload, rfl⟩ | ⟨info, front, tail, htrace, hload, hrest⟩
  · exact .inl ⟨call, rfl, hload⟩
  · rcases hrest with ⟨refusal, hrefusal, rfl, rfl⟩ | ⟨hpassed, hdispatch⟩
    · rw [List.append_nil] at htrace
      exact .inr (.inl ⟨info, refusal, htrace ▸ hload, rfl, .inr (csrf_refusal hrefusal).1⟩)
    · rw [dispatch, htarget] at hdispatch
      rcases serveEndpoint_reaches hguarded hdispatch with ⟨rfl, refusal, rfl, hstatus⟩ |
        ⟨program, hhandler, hprogram⟩
      · rw [List.append_nil] at htrace
        exact .inr (.inl ⟨info, refusal, htrace ▸ hload, rfl, .inl hstatus⟩)
      · refine .inr (.inr ⟨info, front, tail, program, htrace, hload, hhandler, hprogram,
          fun hchanges => isSome_of_handlerOf hchanges hhandler, ?_⟩)
        rintro si rfl
        obtain ⟨hpresent, htoken⟩ := token_of_csrf htarget hguarded hpassed
        exact ⟨hpresent, htoken, foundLive_of_load hrun ⟨tail, htrace.symm⟩ hload⟩

end Runs

theorem csrf_coverage_sample :
    ∃ s : Config, (machine Sample.app).Run anyStep (.initial Sample.store) s ∧
      Sample.status? s 0 = some 204 ∧
      ∃ point, (serve Sample.app.server Sample.logout).Reaches (s.trace 0) point := by
  have hperform : ((machine Sample.app).perform (fun _ _ => true) (Sample.invoked Sample.logout)
      (Sample.resolving 0 ++
        [.advance 0 (.session .ok), .advance 0 (.auth .ok), .advance 0 (.auth .ok)])).any
      (fun s => Sample.status? s 0 = some 204) = true := by
    decide +kernel
  obtain ⟨s, hrest, hobs⟩ : ∃ s, (machine Sample.app).Run anyStep (Sample.invoked Sample.logout) s ∧ _ :=
    Machine.exists_any_run hperform
  have hrun := (Sample.run_invoked Sample.logout).trans hrest
  have hop : s.ops[0]? = some (.request Sample.logout) := hrest.extends.op rfl
  have htarget : targetOf Sample.logout = .api .logout := by decide
  obtain ⟨point, hpoint, -⟩ := csrf_coverage hrun hop htarget (.inl rfl)
  exact ⟨s, hrun, of_decide_eq_true hobs, point, hpoint⟩

end SecurePastebin.Web
