import SecurePastebin.Web.Handlers

/-!
# The router

`NewHandler`: which handler a request is given to, and the chain of middlewares
around it.  The patterns are those registered with the two `ServeMux`es, which
first redirect a path that is not clean; a pattern for `GET` is also one for
`HEAD`.
-/

namespace SecurePastebin.Web

open Text Uuid Process

/-- The endpoints of the API, with the segment a pattern binds. -/
inductive Endpoint where
  | config
  | login
  | logout
  | me
  | oidcStart
  | oidcCallback
  | issueChallenge
  | verifyChallenge (id : Bytes)
  | createPaste
  | getPaste (id : Bytes)
  | deletePaste (id : Bytes)
  | unlockPaste (id : Bytes)
  | rawPaste (id : Bytes)
  | verifyPaste (id : Bytes)
  | listMine
  | adminList
  | unknown
  deriving DecidableEq

/-- The segments of a path of the API after its version. -/
def apiPath (rest : List String) : List Bytes := (["api", "v1"] ++ rest).map ascii

def isGet (method : Method) : Bool := method = .get || method = .head

/-- The segment between two fixed parts of a path. -/
def boundSegment (before : List String) (after : List String) (segments : List Bytes) :
    Option Bytes :=
  match segments[(apiPath before).length]? with
  | some id =>
      if id ≠ [] ∧ segments = apiPath before ++ [id] ++ after.map ascii then some id else none
  | none => none

def endpointOf (method : Method) (segments : List Bytes) : Endpoint :=
  if isGet method then
    if segments = apiPath ["config"] then .config
    else if segments = apiPath ["auth", "me"] then .me
    else if segments = apiPath ["auth", "oidc", "start"] then .oidcStart
    else if segments = apiPath ["auth", "oidc", "callback"] then .oidcCallback
    else if segments = apiPath ["me", "pastes"] then .listMine
    else if segments = apiPath ["admin", "pastes"] then .adminList
    else
      match boundSegment ["pastes"] [] segments, boundSegment ["pastes"] ["raw"] segments with
      | some id, _ => .getPaste id
      | none, some id => .rawPaste id
      | none, none => .unknown
  else if method = .post then
    if segments = apiPath ["auth", "login"] then .login
    else if segments = apiPath ["auth", "logout"] then .logout
    else if segments = apiPath ["challenges"] then .issueChallenge
    else if segments = apiPath ["pastes"] then .createPaste
    else
      match boundSegment ["challenges"] ["verify"] segments,
        boundSegment ["pastes"] ["unlock"] segments,
        boundSegment ["pastes"] ["verify"] segments with
      | some id, _, _ => .verifyChallenge id
      | none, some id, _ => .unlockPaste id
      | none, none, some id => .verifyPaste id
      | none, none, none => .unknown
  else if method = .delete then
    match boundSegment ["pastes"] [] segments with
    | some id => .deletePaste id
    | none => .unknown
  else .unknown

/-- Where a request goes. -/
inductive Target where
  | moved (location : Bytes)
  | health
  | ready
  | api (endpoint : Endpoint)
  | page
  deriving DecidableEq

def withQuery (path rawQuery : Bytes) : Bytes :=
  if rawQuery = [] then path else path ++ 63 :: rawQuery

def targetOf (r : Request) : Target :=
  let path := if r.method = .connect then r.target else cleanPath r.target
  let segments := (rawSegments path).map pathUnescape
  if segments = [ascii "api"] then .moved (withQuery (ascii "/api/") r.rawQuery)
  else if path ≠ r.target then .moved (withQuery path r.rawQuery)
  else if isGet r.method && segments = [ascii "healthz"] then .health
  else if isGet r.method && segments = [ascii "readyz"] then .ready
  else if segments.head? = some (ascii "api") then .api (endpointOf r.method segments)
  else .page

variable (srv : Server) (r : Request) (info : Option SessionInfo)

/-- The program of an endpoint, with what is required before it. -/
def serveEndpoint : Endpoint → Port Response
  | .config => getConfig srv
  | .login => login srv r info
  | .logout => requireAuth info (logout srv)
  | .me => requireAuth info me
  | .oidcStart => oidcStart srv
  | .oidcCallback => oidcCallback srv r
  | .issueChallenge => requireAuth info (issueChallenge srv info)
  | .verifyChallenge id => requireAuth info (verifyChallenge srv r id)
  | .createPaste => requireAuth info (createPaste srv r info)
  | .getPaste id => viewGate srv info (withPathID id (getPaste srv info))
  | .deletePaste id => requireAuth info fun si => withPathID id (deletePaste srv info si)
  | .unlockPaste id => viewGate srv info (withPathID id (unlockPaste srv r info))
  | .rawPaste id => viewGate srv info (withPathID id (rawPaste srv info))
  | .verifyPaste id => viewGate srv info (withPathID id (verifyPaste srv r info))
  | .listMine => requireAuth info (listMine srv r)
  | .adminList => requireAdmin info (adminList srv r)
  | .unknown => return writeError 404 "not_found" (ascii "no such endpoint") []

/-- Pages, if there are any; otherwise what a `ServeMux` answers by itself. -/
def servePage : Response :=
  match srv.static with
  | some page => page r
  | none =>
      if r.segments = [ascii "healthz"] ∨ r.segments = [ascii "readyz"] then
        ⟨405, none, none, none, .text "Method Not Allowed"⟩
      else ⟨404, none, none, none, .text "404 page not found"⟩

def dispatch : Port Response :=
  match targetOf r with
  | .moved location => return redirect 307 location
  | .health => health
  | .ready => readiness srv.readyChecks [] true
  | .api endpoint => serveEndpoint srv r info endpoint
  | .page => return servePage srv r

/-- The whole handler: session, CSRF check, routing. -/
def serve : Port Response := do
  let info ← loadSession srv r
  match csrf r info with
  | some refusal => return refusal
  | none => dispatch srv r info

end SecurePastebin.Web
