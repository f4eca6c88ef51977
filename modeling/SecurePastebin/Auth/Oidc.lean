import SecurePastebin.Auth.OidcState
import SecurePastebin.Paste.Service

/-!
# Login through the identity provider

`internal/auth/oidc.go`: the authorization code flow with PKCE, split at its
port calls.  `Start` saves a fresh state and sends the browser to the provider;
`Complete` takes the state back, exchanges the code, and admits the person the
ID token names.
-/

namespace SecurePastebin.Auth

open Text Uuid Calendar Process
open Store.Bodies (decodeString)
open Paste (trimSpace)

def oidcStateTTL : ℤ := 5 * 60 * second

/-- The configuration; the client secret only the token request uses. -/
structure OIDCConfig where
  issuer : Bytes
  clientId : Bytes
  redirectURL : Bytes
  scopes : List Bytes
  requiredGroup : Bytes
  groupClaim : Bytes
  adminGroup : Bytes

/-- The flow, with the authorization endpoint that discovery has found. -/
structure OIDC where
  cfg : OIDCConfig
  authURL : Bytes
  sha256 : Bytes → Bytes

/-! ## Sending the browser to the provider -/

private def upperHex (value : UInt8) : UInt8 := if value < 10 then 48 + value else 55 + value

private def isUnreserved (byte : UInt8) : Bool :=
  isDigit byte || (65 ≤ byte && byte ≤ 90) || (97 ≤ byte && byte ≤ 122) ||
    [45, 46, 95, 126].contains byte

/-- `url.QueryEscape`. -/
def queryEscape (text : Bytes) : Bytes :=
  text.flatMap fun byte =>
    if isUnreserved byte then [byte]
    else if byte = 32 then [43]
    else [37, upperHex (byte / 16), upperHex (byte % 16)]

/-- `url.Values.Encode` of parameters in the order of their names. -/
def encodeQuery (params : List (Bytes × Bytes)) : Bytes :=
  (ascii "&").intercalate (params.map fun param => queryEscape param.1 ++ 61 :: queryEscape param.2)

def pkceS256 (sha256 : Bytes → Bytes) (verifier : Bytes) : Bytes :=
  Base64.encode Base64.rawURLEncoding (sha256 verifier)

variable (o : OIDC)

/-- `o.oauth.AuthCodeURL` with the parameters `Start` adds. -/
def authCodeURL (state : Bytes) (value : OIDCState) : Bytes :=
  let params :=
    [(ascii "client_id", o.cfg.clientId),
      (ascii "code_challenge", pkceS256 o.sha256 value.verifier),
      (ascii "code_challenge_method", ascii "S256"), (ascii "nonce", value.nonce)] ++
    (if o.cfg.redirectURL = [] then [] else [(ascii "redirect_uri", o.cfg.redirectURL)]) ++
    [(ascii "response_type", ascii "code")] ++
    (if o.cfg.scopes = [] then [] else [(ascii "scope", (ascii " ").intercalate o.cfg.scopes)]) ++
    (if state = [] then [] else [(ascii "state", state)])
  o.authURL ++ (if o.authURL.contains 63 then ascii "&" else ascii "?") ++ encodeQuery params

def start : Port (Except Err Bytes) := do
  let state ← Port.randomToken
  let verifier ← Port.randomToken
  let nonce ← Port.randomToken
  let createdAt ← Port.now
  let value : OIDCState := ⟨verifier, nonce, createdAt⟩
  match ← saveState state value oidcStateTTL with
  | .error err => return .error err
  | .ok () => return .ok (authCodeURL o state value)

/-! ## Identity claims -/

structure IdentityClaims where
  preferredUsername : Bytes
  email : Bytes
  name : Bytes
  groups : List Bytes
  deriving DecidableEq

/-- A claim under its exact name; of several, the last. -/
def claim (members : List (Bytes × Json.Value)) (name : Bytes) : Option Json.Value :=
  members.reverse.lookup name

/-- An absent claim is empty, a claim of another type or `null` is malformed. -/
def stringClaim (members : List (Bytes × Json.Value)) (name : Bytes) : Option Bytes :=
  match claim members name with
  | none => some []
  | some (.string text) => some text
  | some _ => none

def groupsClaim (members : List (Bytes × Json.Value)) (name : Bytes) : Option (List Bytes) :=
  match claim members name with
  | none => some []
  | some (.array items) => items.mapM (decodeString [])
  | some _ => none

def decodeClaims (claims : Bytes) : Option IdentityClaims := do
  let members ← match Json.parse claims with
    | some .null => some []
    | some (.object members) => some members
    | _ => none
  let preferredUsername ← stringClaim members (ascii "preferred_username")
  let email ← stringClaim members (ascii "email")
  let name ← stringClaim members (ascii "name")
  let groups ← groupsClaim members o.cfg.groupClaim
  return ⟨preferredUsername, email, name, groups⟩

/-- The user the claims describe. -/
def claimedUser (idToken : IDToken) (claims : IdentityClaims) (id : UUID) : User where
  id := id
  username :=
    let preferred := trimSpace claims.preferredUsername
    let email := trimSpace claims.email
    if preferred ≠ [] then preferred else if email ≠ [] then email else idToken.subject
  displayName := claims.name
  provider := .oidc
  oidcIssuer := idToken.issuer
  oidcSubject := idToken.subject
  passwordHash := []
  isAdmin := o.cfg.adminGroup ≠ [] && claims.groups.contains o.cfg.adminGroup
  disabled := false
  lastLoginAt := none

/-! ## Completing the login -/

def sanitizedOIDCError (stage : String) : ProviderErr → Err
  | .canceled => .wrap ("oidc: " ++ stage) (.message "context canceled")
  | .deadlineExceeded => .wrap ("oidc: " ++ stage) (.message "context deadline exceeded")
  | .other _ => .message ("oidc: " ++ stage ++ " failed")

def recordDenied (subject : Bytes) (reason : String) : Port Unit := do
  let time ← Port.now
  Port.auditRecord ⟨time, .oidcDenied, none, .denied,
    [("reason", .text (ascii reason)), ("issuer", .text o.cfg.issuer), ("subject", .text subject)]⟩

/-- The part of `Complete` from the decoded claims on. -/
def provision (now : ℤ) (idToken : IDToken) (claims : IdentityClaims) : Port (Except Err User) := do
  if !claims.groups.contains o.cfg.requiredGroup then
    recordDenied o idToken.subject "missing_required_group"
    return .error .notAuthorised
  let id ← Port.newUUID
  match ← Port.usersUpsertOIDC (claimedUser o idToken claims id) with
  | .error err => return .error err
  | .ok stored =>
      if stored.disabled then
        recordDenied o idToken.subject "disabled"
        return .error .notAuthorised
      Port.auditRecord ⟨now, .oidcLogin, some stored.id, .success,
        [("provider", .text (ascii "oidc")), ("is_admin", .bool stored.isAdmin)]⟩
      return .ok stored

/-- The part of `Complete` from the verified token on. -/
def identify (nonce : Bytes) (now : ℤ) (idToken : IDToken) : Port (Except Err User) := do
  if idToken.nonce ≠ nonce then
    recordDenied o idToken.subject "nonce_mismatch"
    return .error (.message "oidc: nonce validation failed")
  if idToken.issuer = [] ∨ idToken.issuer ≠ o.cfg.issuer ∨ trimSpace idToken.subject = [] then
    return .error (.message "oidc: invalid identity claims")
  match decodeClaims o idToken.claims with
  | none => return .error (.message "oidc: invalid identity claims")
  | some claims => provision o now idToken claims

/-- The part of `Complete` from the accepted state on. -/
def redeem (value : OIDCState) (now : ℤ) (code : Bytes) : Port (Except Err User) := do
  match ← Port.exchange code value.verifier with
  | .error err => return .error (sanitizedOIDCError "token exchange" err)
  | .ok rawIDToken =>
      if rawIDToken.getD [] = [] then
        return .error (.message "oidc: token response omitted id token")
      match ← Port.verifyIDToken (rawIDToken.getD []) with
      | .error err => return .error (sanitizedOIDCError "id token verification" err)
      | .ok idToken => identify o value.nonce now idToken

def complete (state code : Bytes) : Port (Except Err User) := do
  match ← takeState state with
  | .error err => return .error err
  | .ok value =>
      let now ← Port.now
      if value.verifier = [] ∨ value.nonce = [] ∨ value.createdAt = OIDCState.zeroTime ∨
          now < value.createdAt ∨ ¬ now < value.createdAt + oidcStateTTL then
        return .error .oidcStateInvalid
      if code = [] then
        return .error (.message "oidc: authorization code missing")
      redeem o value now code

/-! ## Program points -/

section

variable {o} {state code : Bytes} {trace : List Step} {request : Call}

/-- What `Start` has drawn and read when it saves its state. -/
def generatedBy (state : Bytes) (value : OIDCState) : List Step :=
  [⟨.randomToken, state⟩, ⟨.randomToken, value.verifier⟩, ⟨.randomToken, value.nonce⟩,
    ⟨.now, value.createdAt⟩]

/-- `Start` draws, reads the clock and writes its state, in this order. -/
theorem start_call (hreach : (start o).Reaches trace (.inl request)) :
    request = .randomToken ∨ request = .now ∨
      ∃ state value record, trace = generatedBy state value ∧ value.marshal = some record ∧
        request = .statesSet (oidcKey state) record oidcStateTTL := by
  simp only [start, Proc.perform_bind] at hreach
  rcases hreach with ⟨-, hpoint⟩ | ⟨state, _, rfl, hreach⟩
  · exact .inl (Sum.inl.inj hpoint)
  rcases hreach with ⟨-, hpoint⟩ | ⟨verifier, _, rfl, hreach⟩
  · exact .inl (Sum.inl.inj hpoint)
  rcases hreach with ⟨-, hpoint⟩ | ⟨nonce, _, rfl, hreach⟩
  · exact .inl (Sum.inl.inj hpoint)
  rcases hreach with ⟨-, hpoint⟩ | ⟨createdAt, tail, rfl, hreach⟩
  · exact .inr (.inl (Sum.inl.inj hpoint))
  rw [Proc.reaches_bind] at hreach
  rcases hreach with ⟨pending, hsave, hpoint⟩ | ⟨outcome, front, back, -, -, hreach⟩
  · cases hpoint
    unfold saveState at hsave
    split_ifs at hsave
    · cases hsave.2
    · cases hsave.2
    · split at hsave
      · cases hsave.2
      · rename_i record hmarshal
        simp only [Proc.perform_bind] at hsave
        rcases hsave with ⟨rfl, hpoint⟩ | ⟨reply, rest, -, hreach⟩
        · exact .inr (.inr ⟨state, ⟨verifier, nonce, createdAt⟩, record, rfl, hmarshal,
            Sum.inl.inj hpoint⟩)
        · cases reply <;> cases hreach.2
  · cases outcome <;> cases hreach.2

/-- `Complete` has taken `value` back and found it in time. -/
def Accepted (state : Bytes) (value : OIDCState) (record : Bytes) (now : ℤ) : Prop :=
  takenState state record = .ok value ∧ value.createdAt ≤ now ∧ now < value.createdAt + oidcStateTTL

theorem takeState_reaches {point : Call ⊕ Except Err OIDCState}
    (hreach : (takeState state).Reaches trace point) :
    (trace = [] ∧ point = .inl (.statesGetDel (oidcKey state))) ∨
      (∃ err, point = .inr (.error err)) ∨
      ∃ record, trace = [⟨.statesGetDel (oidcKey state), .ok (some record)⟩] ∧
        point = .inr (takenState state record) := by
  unfold takeState at hreach
  split_ifs at hreach
  · exact .inr (.inl ⟨_, hreach.2⟩)
  · simp only [Proc.perform_bind] at hreach
    rcases hreach with hpending | ⟨reply, tail, rfl, hreach⟩
    · exact .inl hpending
    · match reply with
      | .error err => exact .inr (.inl ⟨_, hreach.2⟩)
      | .ok none => exact .inr (.inl ⟨_, hreach.2⟩)
      | .ok (some record) =>
          obtain ⟨rfl, rfl⟩ := hreach
          exact .inr (.inr ⟨record, rfl, rfl⟩)

/-- Beyond its first call and its first clock reading, `Complete` redeems a
state it has accepted. -/
theorem complete_reaches {point : Call ⊕ Except Err User}
    (hreach : (complete o state code).Reaches trace point) :
    (trace = [] ∧ point = .inl (.statesGetDel (oidcKey state))) ∨ point = .inl .now ∨
      (∃ err, point = .inr (.error err)) ∨
      ∃ record value now tail, Accepted state value record now ∧
        trace = ⟨.statesGetDel (oidcKey state), .ok (some record)⟩ :: ⟨.now, now⟩ :: tail ∧
        (redeem o value now code).Reaches tail point := by
  unfold complete at hreach
  rw [Proc.reaches_bind] at hreach
  rcases hreach with ⟨pending, htake, rfl⟩ | ⟨outcome, front, back, rfl, htake, hreach⟩
  · rcases takeState_reaches htake with ⟨rfl, hpoint⟩ | ⟨err, ⟨⟩⟩ | ⟨record, -, ⟨⟩⟩
    cases hpoint
    exact .inl ⟨rfl, rfl⟩
  · cases outcome with
    | error err => exact .inr (.inr (.inl ⟨err, hreach.2⟩))
    | ok value =>
        rcases takeState_reaches htake with ⟨-, ⟨⟩⟩ | ⟨err, ⟨⟩⟩ | ⟨record, rfl, hpoint⟩
        have htaken := (Sum.inr.inj hpoint).symm
        simp only [Proc.perform_bind] at hreach
        rcases hreach with ⟨-, rfl⟩ | ⟨now, tail, rfl, hreach⟩
        · exact .inr (.inl rfl)
        · dsimp only at hreach
          split_ifs at hreach with hrefused
          · exact .inr (.inr (.inl ⟨_, hreach.2⟩))
          · exact .inr (.inr (.inl ⟨_, hreach.2⟩))
          · simp only [not_or, not_lt, not_le] at hrefused
            exact .inr (.inr (.inr ⟨record, value, now, tail,
              ⟨htaken, hrefused.2.2.2.1, hrefused.2.2.2.2⟩, rfl, hreach⟩))

/-- The calls from the verified token on: none to the provider or the state
store. -/
def afterIdentity : Call → Prop
  | .now | .auditRecord _ | .newUUID | .usersUpsertOIDC _ => True
  | _ => False

theorem recordDenied_calls (subject : Bytes) (reason : String) :
    (recordDenied o subject reason).CallsOnly afterIdentity :=
  ⟨trivial, fun _ => ⟨trivial, fun _ => trivial⟩⟩

theorem provision_calls (now : ℤ) (idToken : IDToken) (claims : IdentityClaims) :
    (provision o now idToken claims).CallsOnly afterIdentity := by
  unfold provision
  split_ifs
  · exact (recordDenied_calls _ _).bind fun _ => trivial
  · refine ⟨trivial, fun id => ⟨trivial, fun reply => ?_⟩⟩
    cases reply with
    | error err => trivial
    | ok stored =>
        change Proc.CallsOnly _ (ite ..)
        split_ifs
        · exact (recordDenied_calls _ _).bind fun _ => trivial
        · exact ⟨trivial, fun _ => trivial⟩

theorem identify_calls (nonce : Bytes) (now : ℤ) (idToken : IDToken) :
    (identify o nonce now idToken).CallsOnly afterIdentity := by
  unfold identify
  split_ifs
  · exact (recordDenied_calls _ _).bind fun _ => trivial
  · trivial
  · split
    · trivial
    · exact provision_calls _ _ _

theorem recordDenied_reaches {subject : Bytes} {reason : String} {err : Err}
    {point : Call ⊕ Except Err User}
    (hreach : (recordDenied o subject reason >>= fun _ => .ret (.error err)).Reaches trace point) :
    (∃ request, point = .inl request) ∨ point = .inr (.error err) := by
  rw [Proc.reaches_bind] at hreach
  rcases hreach with ⟨request, -, rfl⟩ | ⟨_, _, _, -, -, -, rfl⟩
  · exact .inl ⟨request, rfl⟩
  · exact .inr rfl

/-- Nobody is admitted by a token with another nonce. -/
theorem identify_ok {nonce : Bytes} {now : ℤ} {idToken : IDToken} {u : User}
    (hreach : (identify o nonce now idToken).Reaches trace (.inr (.ok u))) :
    idToken.nonce = nonce := by
  by_contra hne
  rw [identify, if_pos hne] at hreach
  rcases recordDenied_reaches hreach with ⟨request, hpoint⟩ | hpoint <;> cases hpoint

/-- Redeeming starts with the exchange, and makes only one. -/
theorem redeem_reaches {value : OIDCState} {now : ℤ} {point : Call ⊕ Except Err User}
    (hreach : (redeem o value now code).Reaches trace point) :
    (trace = [] ∧ point = .inl (.exchange code value.verifier)) ∨
      (∃ err, point = .inr (.error err)) ∨
      (∃ rawIDToken, point = .inl (.verifyIDToken rawIDToken)) ∨
      ∃ response rawIDToken idToken tail,
        trace = ⟨.exchange code value.verifier, response⟩ ::
          ⟨.verifyIDToken rawIDToken, .ok idToken⟩ :: tail ∧
        (identify o value.nonce now idToken).Reaches tail point := by
  simp only [redeem, Proc.perform_bind] at hreach
  rcases hreach with hpending | ⟨response, tail, rfl, hreach⟩
  · exact .inl hpending
  cases response with
  | error err => exact .inr (.inl ⟨_, hreach.2⟩)
  | ok rawIDToken =>
      dsimp only at hreach
      split_ifs at hreach
      · exact .inr (.inl ⟨_, hreach.2⟩)
      · rcases hreach with ⟨-, rfl⟩ | ⟨outcome, rest, rfl, hreach⟩
        · exact .inr (.inr (.inl ⟨_, rfl⟩))
        · cases outcome with
          | error err => exact .inr (.inl ⟨_, hreach.2⟩)
          | ok idToken => exact .inr (.inr (.inr ⟨_, _, idToken, rest, rfl, hreach⟩))

theorem provision_ok {now : ℤ} {idToken : IDToken}
    {claims : IdentityClaims} {u : User} {sub : List Step}
    (hreach : (provision o now idToken claims).Reaches sub (.inr (.ok u))) :
    u.disabled = false ∧ ∃ id v event recorded, sub = [⟨.newUUID, id⟩,
      ⟨.usersUpsertOIDC v, .ok u⟩, ⟨.auditRecord event, recorded⟩] := by
  unfold provision at hreach
  split_ifs at hreach
  · rcases recordDenied_reaches hreach with ⟨_, hpoint⟩ | hpoint <;> cases hpoint
  · simp only [Proc.perform_bind, Proc.reaches_call_result] at hreach
    obtain ⟨id, _, rfl, reply, _, rfl, hreach⟩ := hreach
    cases reply with
    | error err => cases hreach.2
    | ok stored =>
        dsimp only at hreach
        split_ifs at hreach with hdisabled
        · rcases recordDenied_reaches hreach with ⟨_, hpoint⟩ | hpoint <;> cases hpoint
        · simp only [Proc.reaches_call_result] at hreach
          obtain ⟨recorded, _, rfl, rfl, hpoint⟩ := hreach
          cases hpoint
          exact ⟨by simpa using hdisabled, id, _, _, recorded, rfl⟩

/-- The calls of a `Complete` that succeeds, likewise. -/
theorem complete_ok {u : User} {sub : List Step}
    (hreach : (complete o state code).Reaches sub (.inr (.ok u))) :
    u.disabled = false ∧ ∃ key taken now verifier response rawIDToken verified id v event recorded,
      sub = [⟨.statesGetDel key, taken⟩, ⟨.now, now⟩, ⟨.exchange code verifier, response⟩,
        ⟨.verifyIDToken rawIDToken, verified⟩, ⟨.newUUID, id⟩, ⟨.usersUpsertOIDC v, .ok u⟩,
        ⟨.auditRecord event, recorded⟩] := by
  rcases complete_reaches hreach with ⟨-, ⟨⟩⟩ | hpoint | ⟨err, ⟨⟩⟩ |
    ⟨record, value, now, tail, -, rfl, hredeem⟩
  · cases hpoint
  · rcases redeem_reaches hredeem with ⟨-, ⟨⟩⟩ | ⟨err, ⟨⟩⟩ | ⟨_, ⟨⟩⟩ |
      ⟨response, rawIDToken, idToken, rest, rfl, hidentify⟩
    unfold identify at hidentify
    split_ifs at hidentify
    · rcases recordDenied_reaches hidentify with ⟨_, hpoint⟩ | hpoint <;> cases hpoint
    · cases hidentify.2
    · split at hidentify
      · cases hidentify.2
      · obtain ⟨henabled, id, v, event, recorded, rfl⟩ := provision_ok hidentify
        exact ⟨henabled, _, _, _, _, _, _, _, id, v, event, recorded, rfl⟩

/-- The calls of `Start`. -/
def ofStart : Call → Prop
  | .randomToken | .now | .statesSet .. => True
  | _ => False

theorem start_calls : (start o).CallsOnly ofStart := by
  refine Proc.callsOnly_of_reaches fun trace request hreach => ?_
  rcases start_call hreach with rfl | rfl | ⟨state, value, record, -, -, rfl⟩ <;> trivial

/-- The calls of `Complete`. -/
def ofComplete : Call → Prop
  | .statesGetDel _ | .exchange .. | .verifyIDToken _ => True
  | request => afterIdentity request

theorem complete_calls : (complete o state code).CallsOnly ofComplete := by
  refine Proc.callsOnly_of_reaches fun trace request hreach => ?_
  rcases complete_reaches hreach with ⟨-, hpoint⟩ | hpoint | ⟨err, ⟨⟩⟩ |
    ⟨record, value, now, tail, -, -, hredeem⟩
  · cases hpoint
    trivial
  · cases hpoint
    trivial
  · rcases redeem_reaches hredeem with ⟨-, hpoint⟩ | ⟨err, ⟨⟩⟩ | ⟨rawIDToken, hpoint⟩ |
      ⟨response, rawIDToken, idToken, tail, -, hidentify⟩
    · cases hpoint
      trivial
    · cases hpoint
      trivial
    · have hafter := (identify_calls _ _ _).reaches hidentify
      cases request <;> trivial

end

end SecurePastebin.Auth
