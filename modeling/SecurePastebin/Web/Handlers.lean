import SecurePastebin.Auth.Local
import SecurePastebin.Auth.Oidc
import SecurePastebin.Web.Ports

/-!
# The handlers

`internal/httpserver`: resolving the session of a request, and one program for
each endpoint.  Logging and metrics are left out.
-/

namespace SecurePastebin.Web

open Text Uuid Calendar Process
open Paste (PasteMeta Status Principal CreateInput Page statusText)
open Store.Bodies (foldName decodeString decodeInt)

/-- What the handlers are constructed with. -/
structure Server where
  pastes : Paste.Deps
  limiter : Ratelimit.Limiter
  /-- Local login is configured and there is an authenticator. -/
  localEnabled : Bool
  dummyPHC : Bytes
  oidc : Option Auth.OIDC
  oidcEnabled : Bool
  /-- How long a challenge token lives, if there is a challenge service. -/
  challengeTTL : Option ℤ
  viewRequiresAuth : Bool
  sessionIdleTTL : ℤ
  sessionAbsoluteTTL : ℤ
  noticeText : Bytes
  /-- The peers whose `X-Forwarded-For` counts. -/
  trusted : Bytes → Bool
  readyChecks : List Bytes
  /-- The embedded pages. -/
  static : Option (Request → Response)

structure SessionInfo where
  session : Auth.Session
  user : Auth.User
  deriving DecidableEq

variable (srv : Server) (r : Request) (info : Option SessionInfo)

def Server.baseURL : Bytes := srv.pastes.baseURL

def principalFrom (info : Option SessionInfo) : Option Principal :=
  info.map fun si => si.user.principal

def ipFrom : Bytes := clientIP srv.trusted r

/-! ## Sessions -/

/-- Resolve the cookie to a session and its user; any failure is an anonymous
request. -/
def loadSession : Port (Option SessionInfo) :=
  match r.cookie with
  | none => return none
  | some id =>
      if id = [] then return none
      else do
        match ← Port.ofSession (Session.get id) with
        | .error _ => return none
        | .ok sess =>
            match ← Port.usersGetByID sess.userId with
            | .error _ =>
                let _ ← Port.ofSession (Session.delete sess.id)
                return none
            | .ok user =>
                if user.disabled then
                  let _ ← Port.ofSession (Session.delete sess.id)
                  return none
                else
                  let _ ← Port.ofSession (Session.touch sess.id srv.sessionIdleTTL)
                  return some ⟨sess, user⟩

def requireAuth (next : SessionInfo → Port Response) : Port Response :=
  match info with
  | none => return writeError 401 "unauthenticated" (ascii "login required") []
  | some si => next si

def requireAdmin (next : SessionInfo → Port Response) : Port Response :=
  requireAuth info fun si =>
    if si.user.isAdmin then next si
    else return writeError 403 "forbidden" (ascii "admin required") []

/-- `viewGate`. -/
def viewGate (next : Port Response) : Port Response :=
  if srv.viewRequiresAuth then requireAuth info fun _ => next else next

def csrfExempt (path : Bytes) : Bool :=
  path = ascii "/api/v1/auth/login" || path = ascii "/api/v1/auth/oidc/callback"

/-- The refusal of a state-changing request with a session and without its
token. -/
def csrf : Option Response :=
  if r.method = .get ∨ r.method = .head ∨ r.method = .options then none
  else if ¬ ascii "/api/" <+: r.path ∨ csrfExempt r.path then none
  else
    match info with
    | none => none
    | some si =>
        if r.csrfToken = [] ∨ r.csrfToken ≠ si.session.csrfToken then
          some (writeError 403 "csrf_invalid" (ascii "missing or invalid X-CSRF-Token") [])
        else none

def secureCookies : Bool := (ascii "https://").isPrefixOf srv.baseURL

/-- One rate limit; the refusal, if it is exceeded. -/
def limit (scope : Ratelimit.Scope) (key : Bytes) : Port (Option Response) := do
  let decision ← Port.ofLimiter (Ratelimit.allow srv.limiter scope key)
  if decision.allowed then
    return none
  else
    let secs := max 1 (decision.retryAfter.tdiv second)
    let time ← Port.now
    Port.auditRecord ⟨time, .rateLimited, (principalFrom info).map (·.userId), .denied,
      [("scope", .text scope.text)]⟩
    return some { writeError 429 "rate_limited" (ascii "too many requests")
      [("retry_after_seconds", jsonInt secs)] with retryAfter := some secs }

/-- Several rate limits, one after the other, before a program. -/
def limited (checks : List (Ratelimit.Scope × Bytes)) (next : Port Response) : Port Response :=
  match checks with
  | [] => next
  | (scope, key) :: rest => do
      match ← limit srv info scope key with
      | some refusal => return refusal
      | none => limited rest next

/-! ## Bodies -/

/-- `decodeJSON`: members are matched up to case and an unknown one is an
error. -/
def decodeJSON {Input : Type} (zero : Input) (set : Input → Bytes → Json.Value → Option Input) :
    Body → Option Input
  | .value .null => some zero
  | .value (.object members) =>
      members.foldlM (fun input member => set input (foldName member.1) member.2) zero
  | _ => none

structure LoginInput where
  username : Bytes
  password : Bytes

def loginInput : Body → Option LoginInput :=
  decodeJSON ⟨[], []⟩ fun input name value =>
    if name = ascii "username" then
      (decodeString input.username value).map fun username => { input with username }
    else if name = ascii "password" then
      (decodeString input.password value).map fun password => { input with password }
    else none

structure CreateBody where
  content : Bytes
  password : Bytes
  ttlSeconds : ℤ
  challengeToken : Bytes

def createBody : Body → Option CreateBody :=
  decodeJSON ⟨[], [], 0, []⟩ fun input name value =>
    if name = ascii "content" then
      (decodeString input.content value).map fun content => { input with content }
    else if name = ascii "password" then
      (decodeString input.password value).map fun password => { input with password }
    else if name = ascii "ttl_seconds" then
      (decodeInt input.ttlSeconds value).map fun ttlSeconds => { input with ttlSeconds }
    else if name = ascii "challenge_token" then
      (decodeString input.challengeToken value).map fun challengeToken =>
        { input with challengeToken }
    else none

/-- A body with one text member. -/
def textBody (field : String) : Body → Option Bytes :=
  decodeJSON [] fun input name value => if name = ascii field then decodeString input value else none

/-- A body with one integer member. -/
def intBody (field : String) : Body → Option ℤ :=
  decodeJSON 0 fun input name value => if name = ascii field then decodeInt input value else none

/-! ## Accounts -/

def providerText : Auth.Provider → String
  | .localAccount => "local"
  | .oidc => "oidc"

def userJSON (u : Auth.User) : Json.Value :=
  jsonObject [("display_name", .string u.displayName), ("id", .string u.id.text),
    ("is_admin", .bool u.isAdmin), ("provider", jsonText (providerText u.provider)),
    ("username", .string u.username)]

/-- What `login` and `me` tell of a session. -/
def sessionJSON (sess : Auth.Session) (u : Auth.User) : Json.Value :=
  jsonObject [("csrf_token", .string sess.csrfToken), ("user", userJSON u)]

/-- Replace a presented session by a fresh one. -/
def startSession (u : Auth.User) : Port (Except Auth.Err Auth.Session) := do
  if r.cookie.getD [] ≠ [] then
    let _ ← Port.ofSession (Session.delete (r.cookie.getD []))
  Port.ofSession (Session.create u.id srv.sessionIdleTTL srv.sessionAbsoluteTTL)

def withSession (sess : Auth.Session) (response : Response) : Response :=
  { response with cookie := some (.set sess.id sess.absoluteExpiry (secureCookies srv)) }

/-- The part of `login` from the authenticated user on. -/
def loginAs (u : Auth.User) : Port Response := do
  match ← startSession srv r u with
  | .error err => return fail (.auth err)
  | .ok sess => return withSession srv sess (writeJSON 200 (sessionJSON sess u))

def login : Port Response :=
  if !srv.localEnabled then return writeError 404 "not_found" (ascii "local login disabled") []
  else
    match loginInput r.body with
    | none => return writeError 400 "bad_request" (ascii "username and password required") []
    | some input =>
        if input.username = [] ∨ input.password = [] then
          return writeError 400 "bad_request" (ascii "username and password required") []
        else
          limited srv info [(.loginIP, ipFrom srv r), (.login, input.username)] do
            match ← Port.ofAuth (Auth.authenticate srv.dummyPHC input.username input.password) with
            | .error err => return fail (.auth err)
            | .ok u => loginAs srv r u

def logout (si : SessionInfo) : Port Response := do
  let _ ← Port.ofSession (Session.delete si.session.id)
  let time ← Port.now
  Port.auditRecord ⟨time, .logout, some si.user.id, .success, []⟩
  return { noContent with cookie := some (.clear (secureCookies srv)) }

def me (si : SessionInfo) : Port Response := return writeJSON 200 (sessionJSON si.session si.user)

def oidcStart : Port Response :=
  match srv.oidc with
  | none => return writeError 404 "not_found" (ascii "oidc disabled") []
  | some flow => do
      match ← Port.ofAuth (Auth.start flow) with
      | .error err => return fail (.auth err)
      | .ok url => return redirect 302 url

/-- The part of `oidcCallback` from the authenticated user on. -/
def callbackAs (u : Auth.User) : Port Response := do
  match ← startSession srv r u with
  | .error err => return fail (.auth err)
  | .ok sess => return withSession srv sess (redirect 302 (ascii "/new"))

def oidcCallback : Port Response :=
  match srv.oidc with
  | none => return writeError 404 "not_found" (ascii "oidc disabled") []
  | some flow =>
      let state := r.query "state"
      let code := r.query "code"
      if state = [] ∨ code = [] then
        return writeError 400 "bad_request" (ascii "state and code required") []
      else do
        match ← Port.ofAuth (Auth.complete flow state code) with
        | .error err =>
            if Auth.Err.is .notAuthorised err || Auth.Err.is .oidcStateInvalid err then
              return fail (.auth err)
            else return writeError 400 "oidc_failed" (ascii "login failed") []
        | .ok u => callbackAs srv r u

/-! ## Challenges -/

/-- `int(d.Seconds())`. -/
def wholeSeconds (duration : ℤ) : ℤ := duration.tdiv second

def issueChallenge (si : SessionInfo) : Port Response :=
  if srv.challengeTTL.isNone then
    return writeError 404 "not_found" (ascii "challenge disabled") []
  else
    limited srv info [(.challengeIssue, si.user.id.text)] do
      match ← Port.challengeIssue si.user.id with
      | .error err => return fail (.challenge err)
      | .ok issued =>
          return writeJSON 201 (jsonObject
            [("background_png_b64", Store.Bodies.bytesValue issued.backgroundPNG),
              ("challenge_id", .string issued.id),
              ("expires_in", jsonInt (wholeSeconds issued.expiresIn)),
              ("height", jsonInt issued.height),
              ("piece_png_b64", Store.Bodies.bytesValue issued.piecePNG),
              ("piece_y", jsonInt issued.pieceY), ("width", jsonInt issued.width)])

def verifyChallenge (challengeId : Bytes) (si : SessionInfo) : Port Response :=
  match srv.challengeTTL with
  | none => return writeError 404 "not_found" (ascii "challenge disabled") []
  | some ttl =>
      match intBody "x" r.body with
      | none => return writeError 400 "bad_request" (ascii "x required") []
      | some x => do
          match ← Port.challengeVerify si.user.id challengeId x with
          | .error err => return fail (.challenge err)
          | .ok token =>
              return writeJSON 200 (jsonObject
                [("challenge_token", .string token), ("expires_in", jsonInt (wholeSeconds ttl))])

/-! ## Pastes -/

def jsonTime (t : ℤ) : Json.Value := .string (rfc3339 t)

/-- A member that may be absent. -/
def optionalMember (name : String) (value : Option Json.Value) : List (String × Json.Value) :=
  (value.map fun found => (name, found)).toList

/-- The members in the order of their names, as a Go map is written. -/
def pasteJSON (baseURL : Bytes) (m : PasteMeta) (status : Status) (hashVisible : Bool)
    (content : Option Bytes) (includeOwner : Bool) : Json.Value :=
  jsonObject (optionalMember "content" (content.map .string) ++
    [("created_at", jsonTime m.createdAt)] ++
    optionalMember "deleted_at" (m.deletedAt.map jsonTime) ++
    [("expires_at", jsonTime m.expiresAt), ("hash_algo", .string m.hashAlgo),
      ("id", .string m.id.text)] ++
    (if includeOwner then [("owner_id", .string m.ownerId.text)] else []) ++
    [("password_protected", .bool m.passwordProtected)] ++
    (if hashVisible then [("sha256", .string m.contentHash)] else []) ++
    [("size_bytes", jsonInt m.sizeBytes), ("status", jsonText (statusText status)),
      ("ttl_seconds", jsonInt m.ttlSeconds), ("url", .string (Paste.pasteURL baseURL m.id)),
      ("view_count", jsonInt m.viewCount)])

/-- `pathID`: the handlers below start with the identifier in the path. -/
def withPathID (text : Bytes) (next : UUID → Port Response) : Port Response :=
  match parse text with
  | none => return writeError 400 "bad_request" (ascii "id must be a uuid") []
  | some id => next id

def statusErr : Status → Option Paste.Err
  | .active => none
  | .expired => some .expired
  | .deleted => some .deleted
  | .unavailable => some .unavailable

def smallBody : ℤ := 65536

/-- The part of `createPaste` from the rate limit on. -/
def createFrom (si : SessionInfo) (input : CreateBody) : Port Response := do
  match ← Port.ofPaste (Paste.create srv.pastes si.user.principal
      ⟨input.content, input.password, input.ttlSeconds⟩) with
  | .error err => return fail (.paste err)
  | .ok res => return writeJSON 201 (pasteJSON srv.baseURL res.info .active true none false)

def createPaste (si : SessionInfo) : Port Response :=
  match r.body with
  | .tooLarge =>
      return writeError 413 "request_too_large" (ascii "request body too large")
        [("limit_bytes", jsonInt (6 * srv.pastes.limits.maxSize + smallBody))]
  | _ =>
      match createBody r.body with
      | none => return writeError 400 "bad_request" (ascii "invalid json body") []
      | some input =>
          limited srv info [(.pasteCreate, si.user.id.text)] do
            if srv.challengeTTL.isNone then createFrom srv si input
            else
              match ← Port.challengeConsume si.user.id input.challengeToken with
              | .error _ => return fail (.paste .challengeRequired)
              | .ok () => createFrom srv si input

def getPaste (id : UUID) : Port Response := do
  match ← Port.ofPaste (Paste.read srv.pastes (principalFrom info) id []) with
  | .error err => return fail (.paste err)
  | .ok res =>
      return writeJSON 200
        (pasteJSON srv.baseURL res.info res.status res.hashVisible res.content false)

def writeRaw (id : UUID) (content : Option Bytes) : Response :=
  ⟨200, none, none, none, .attachment (id.text ++ ascii ".txt") (content.getD [])⟩

def unlockPaste (id : UUID) : Port Response :=
  limited srv info [(.unlockIP, ipFrom srv r), (.unlock, id.text ++ ascii ":" ++ ipFrom srv r)] do
    match textBody "password" r.body with
    | none => return writeError 400 "bad_request" (ascii "password required") []
    | some password =>
        if password = [] then
          return writeError 400 "bad_request" (ascii "password required") []
        else
          match ← Port.ofPaste (Paste.read srv.pastes (principalFrom info) id password) with
          | .error err => return fail (.paste err)
          | .ok res =>
              match statusErr res.status with
              | some err => return fail (.paste err)
              | none =>
                  if (ascii "text/plain").isPrefixOf r.accept then
                    return writeRaw id res.content
                  else
                    return writeJSON 200
                      (pasteJSON srv.baseURL res.info res.status true res.content false)

def rawPaste (id : UUID) : Port Response := do
  match ← Port.ofPaste (Paste.read srv.pastes (principalFrom info) id []) with
  | .error err => return fail (.paste err)
  | .ok res =>
      match statusErr res.status with
      | some err => return fail (.paste err)
      | none =>
          if res.info.passwordProtected then return fail (.paste .passwordRequired)
          else return writeRaw id res.content

/-- `hexSHA.MatchString(text)`. -/
def isHexSHA (text : Bytes) : Bool := text.length = 64 && text.all fun digit => (hexValue digit).isSome

def verifyPaste (id : UUID) : Port Response :=
  limited srv info [(.verifyGlobal, ascii "global"), (.verify, ipFrom srv r)] do
    match textBody "sha256" r.body with
    | none => return writeError 400 "bad_request" (ascii "sha256 must be 64 hex characters") []
    | some sha256 =>
        if !isHexSHA sha256 then
          return writeError 400 "bad_request" (ascii "sha256 must be 64 hex characters") []
        else
          match ← Port.ofPaste (Paste.verify srv.pastes id sha256) with
          | .error err => return fail (.paste err)
          | .ok res =>
              return writeJSON 200 (jsonObject
                [("created_at", jsonTime res.info.createdAt),
                  ("expires_at", jsonTime res.info.expiresAt), ("match", .bool res.isMatch),
                  ("size_bytes", jsonInt res.info.sizeBytes),
                  ("status", jsonText (statusText res.status))])

def deletePaste (si : SessionInfo) (id : UUID) : Port Response :=
  limited srv info [(.delete, si.user.id.text)] do
    match ← Port.ofPaste (Paste.delete srv.pastes si.user.principal id) with
    | .error err => return fail (.paste err)
    | .ok () => return noContent

/-- The digits of an integer, as far as it fits; anything else is zero. -/
def atoi (text : Bytes) : ℤ :=
  let magnitude := fun digits : Bytes =>
    if digits ≠ [] ∧ digits.all isDigit then (digitsValue digits : ℤ) else 0
  match text with
  | 45 :: digits => max (-(2 ^ 63)) (-magnitude digits)
  | 43 :: digits => min (2 ^ 63 - 1) (magnitude digits)
  | digits => min (2 ^ 63 - 1) (magnitude digits)

def pageFrom : Page where
  limit := let limit := atoi (r.query "limit"); if limit ≤ 0 ∨ limit > 200 then 50 else limit
  offset := let offset := atoi (r.query "offset"); if offset < 0 then 0 else offset

def listJSON (baseURL : Bytes) (items : List PasteMeta) (now : ℤ) : Json.Value :=
  jsonObject [("items", .array (items.map fun m =>
    pasteJSON baseURL m (m.status now) (!m.passwordProtected) none true))]

/-- The answer to a listing. -/
def writeList (items : Except Paste.Err (List PasteMeta)) : Port Response := do
  match items with
  | .error err => return fail (.paste err)
  | .ok items =>
      let now ← Port.now
      return writeJSON 200 (listJSON srv.baseURL items now)

def listMine (si : SessionInfo) : Port Response := do
  let items ← Port.ofPaste (Paste.listMine si.user.principal (pageFrom r))
  writeList srv items

def adminList (si : SessionInfo) : Port Response :=
  let owner := r.query "owner"
  if owner ≠ [] ∧ parse owner = none then
    return writeError 400 "bad_request" (ascii "owner must be a uuid") []
  else do
    let items ← Port.ofPaste (Paste.listAll si.user.principal
      (if owner = [] then none else parse owner) (pageFrom r))
    writeList srv items

/-! ## Configuration and health -/

def getConfig : Port Response :=
  return writeJSON 200 (jsonObject
    [("auth_modes", .array ((if srv.localEnabled then [jsonText "local"] else []) ++
        if srv.oidcEnabled && srv.oidc.isSome then [jsonText "oidc"] else [])),
      ("challenge_enabled", .bool srv.challengeTTL.isSome),
      ("paste_max_size_bytes", jsonInt srv.pastes.limits.maxSize),
      ("ttl_default", jsonInt srv.pastes.limits.ttlDefault),
      ("ttl_min", jsonInt srv.pastes.limits.ttlMin), ("ttl_max", jsonInt srv.pastes.limits.ttlMax),
      ("view_requires_auth", .bool srv.viewRequiresAuth), ("notice_text", .string srv.noticeText)])

def health : Port Response := return writeJSON 200 (jsonObject [("status", jsonText "ok")])

/-- Run the checks in turn; the answer says how each went. -/
def readiness : List Bytes → List (Bytes × Json.Value) → Bool → Port Response
  | [], results, healthy => return writeJSON (if healthy then 200 else 503) (.object results)
  | check :: checks, results, healthy => do
      match ← Port.ready check with
      | none => readiness checks (results ++ [(check, jsonText "ok")]) healthy
      | some err => readiness checks (results ++ [(check, .string err)]) false

end SecurePastebin.Web
