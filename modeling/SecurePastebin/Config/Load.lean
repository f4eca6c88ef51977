import SecurePastebin.Core.Base64
import SecurePastebin.Paste.Service
import SecurePastebin.Ratelimit.Limiter

/-!
# The configuration

`internal/config`: every setting is read from the environment, every problem is
collected, and the configuration is accepted if there is none.  What the
standard library parses (durations, address prefixes), letter case beyond ASCII
and files are parameters.  A map is written in the order of its keys; the
problems with it are reported in an order the source leaves open.
-/

namespace SecurePastebin.Configuration

open Text Utf8 Calendar Base64
open Paste (trimSpace trimSlashes isSpacePiece Limits)
open Ratelimit (RateConfig)

/-- What the process is started in. -/
structure Environment where
  getenv : String → Bytes
  /-- The content of a file, or the text of the error. -/
  readFile : Bytes → Except Bytes Bytes
  /-- `strings.ToLower`. -/
  toLower : Bytes → Bytes
  /-- `time.ParseDuration`. -/
  parseDuration : Bytes → Option ℤ
  /-- `netip.ParsePrefix` accepts the text. -/
  isPrefix : Bytes → Bool

/-! ## Sizes -/

def maxPasteSizeHardCap : ℤ := 16 * 1048576

def upper (byte : UInt8) : UInt8 := if 97 ≤ byte ∧ byte ≤ 122 then byte - 32 else byte

/-- White space in a regular expression. -/
def isBlank (byte : UInt8) : Bool := byte = 9 || byte = 10 || byte = 12 || byte = 13 || byte = 32

inductive SizeUnit where
  | b
  | kb
  | mb
  deriving DecidableEq

/-- `sizeRe`: the digits and the unit. -/
def matchSize (text : Bytes) : Option (Bytes × SizeUnit) :=
  let digits := text.takeWhile isDigit
  let unit := (text.dropWhile isDigit).dropWhile isBlank
  if digits = [] then none
  else if unit = ascii "B" then some (digits, .b)
  else if unit = ascii "KB" then some (digits, .kb)
  else if unit = ascii "MB" then some (digits, .mb)
  else none

/-- `ParseSize`; the shifts are of 64-bit integers. -/
def parseSize (text : Bytes) : Option ℤ :=
  match matchSize ((trimSpace text).map upper) with
  | none => none
  | some (digits, unit) =>
      match parseInt64 digits with
      | none => none
      | some value =>
          let size := match unit with
            | .b => value
            | .kb => wrap64 (value * 1024)
            | .mb => wrap64 (value * 1048576)
          if size ≤ 0 ∨ size > maxPasteSizeHardCap then none else some size

/-- The text of `ErrBadSize`. -/
def badSize : Bytes :=
  ascii "config: invalid size (expected e.g. 256KB, 1024KB, 1MB; binary units; max 16MB)"

/-! ## Master keys -/

/-- `strings.Cut(text, ":")`. -/
def cutColon (text : Bytes) : Option (Bytes × Bytes) :=
  match text.dropWhile (· ≠ 58) with
  | [] => none
  | _ :: rest => some (text.takeWhile (· ≠ 58), rest)

abbrev Keyring := List (Bytes × Bytes)

/-- The loop of `ParseMasterKeys`: the keys in the order of the text, and the
identifier of the first. -/
def parseMasterKeyEntries (keys : Keyring) (first : Bytes) :
    List Bytes → Except Bytes (Keyring × Bytes)
  | [] => .ok (keys, first)
  | part :: parts =>
      let part := trimSpace part
      if part = [] then parseMasterKeyEntries keys first parts
      else
        match cutColon part with
        | none => .error (ascii "master key entry must be id:base64")
        | some (id, text) =>
            if id = [] then .error (ascii "master key entry must be id:base64")
            else
              match decode stdEncoding text with
              | none => .error (ascii "master key " ++ id ++ ascii ": invalid base64")
              | some raw =>
                  if raw.length ≠ 32 then
                    .error (ascii "master key " ++ id ++ ascii ": must be 32 bytes, got " ++
                      formatInt raw.length)
                  else if keys.any (·.1 = id) then
                    .error (ascii "master key " ++ id ++ ascii ": duplicate id")
                  else
                    parseMasterKeyEntries (keys ++ [(id, raw)]) (if first = [] then id else first)
                      parts

/-- `ParseMasterKeys`; identifiers in messages are not quoted. -/
def parseMasterKeys (text : Bytes) : Except Bytes (Keyring × Bytes) :=
  match parseMasterKeyEntries [] [] (text.splitOn 44) with
  | .error problem => .error problem
  | .ok ([], _) => .error (ascii "no master keys")
  | .ok (keys, first) => .ok (keys, first)

/-! ## Reading settings -/

/-- A value, and the problems found on the way to it. -/
structure Checked (Value : Type) where
  value : Value
  errs : List Bytes

variable (env : Environment)

def Environment.setting (key : String) : Bytes := trimSpace (env.getenv key)

def Environment.str (key : String) (default : Bytes) : Bytes :=
  if env.setting key = [] then default else env.setting key

def Environment.required (key : String) : Checked Bytes :=
  ⟨env.setting key, if env.setting key = [] then [ascii key ++ ascii " is required"] else []⟩

/-- A setting that is parsed, if it is there. -/
def Environment.parsed {Value : Type} (key : String) (default : Value)
    (parse : Bytes → Option Value) (problem : String) : Checked Value :=
  if env.setting key = [] then ⟨default, []⟩
  else
    match parse (env.setting key) with
    | none => ⟨default, [ascii key ++ ascii problem]⟩
    | some value => ⟨value, []⟩

def Environment.intv (key : String) (default : ℤ) : Checked ℤ :=
  env.parsed key default parseInt64 ": not an integer"

def parseBool (text : Bytes) : Option Bool :=
  if text ∈ [ascii "1", ascii "true", ascii "yes", ascii "on"] then some true
  else if text ∈ [ascii "0", ascii "false", ascii "no", ascii "off"] then some false
  else none

def Environment.boolv (key : String) (default : Bool) : Checked Bool :=
  env.parsed key default (fun text => parseBool (env.toLower text)) ": not a boolean"

def Environment.dur (key : String) (default : ℤ) : Checked ℤ :=
  env.parsed key default env.parseDuration ": not a duration (e.g. 8h, 2s)"

/-- A secret is inline or in a file, not both. -/
def Environment.secret (key : String) : Checked Bytes :=
  let file := env.setting (key ++ "_FILE")
  if env.setting key ≠ [] ∧ file ≠ [] then
    ⟨[], [ascii ("set only one of " ++ key ++ " / " ++ key ++ "_FILE")]⟩
  else if file ≠ [] then
    match env.readFile file with
    | .error problem => ⟨[], [ascii key ++ ascii "_FILE: " ++ problem]⟩
    | .ok content => ⟨trimSpace content, []⟩
  else ⟨env.setting key, []⟩

/-- `strings.Fields`. -/
def fields (text : Bytes) : List Bytes :=
  (((pieces text).splitOnP isSpacePiece).filter (· ≠ [])).map fun field => field.flatMap Piece.bytes

/-! ## Load -/

def hour : ℤ := 3600 * second

def defaultNotice : Bytes :=
  ascii ("Do not paste production credentials or customer personal data. " ++
    "Pastes are ephemeral, not a secure vault.")

inductive AuthMode where
  | localOnly
  | oidcOnly
  | both
  deriving DecidableEq

def parseAuthMode (text : Bytes) : Option AuthMode :=
  if text = ascii "local" then some .localOnly
  else if text = ascii "oidc" then some .oidcOnly
  else if text = ascii "both" then some .both
  else none

structure OIDCSettings where
  issuer : Bytes
  clientID : Bytes
  clientSecret : Bytes
  redirectURL : Bytes
  scopes : List Bytes
  requiredGroup : Bytes
  groupClaim : Bytes
  adminGroup : Bytes

structure ChallengeConfig where
  enabled : Bool
  tolerancePx : ℤ
  ttl : ℤ
  minSolve : ℤ

structure Argon2Config where
  maxConcurrent : ℤ
  queueTimeout : ℤ
  memoryKiB : ℕ
  time : ℕ
  threads : ℕ

structure Lifetimes where
  hardMax : ℤ
  default : ℤ
  least : ℤ
  most : ℤ

structure Config where
  appBaseURL : Bytes
  listenAddr : Bytes
  trustedProxyCIDRs : List Bytes
  tlsCertFile : Bytes
  tlsKeyFile : Bytes
  databaseURL : Bytes
  redisURL : Bytes
  redisStateURL : Bytes
  masterKeys : Keyring
  masterKeyActive : Bytes
  authMode : AuthMode
  oidc : OIDCSettings
  sessionIdleTTL : ℤ
  sessionAbsoluteTTL : ℤ
  viewRequiresAuth : Bool
  challenge : ChallengeConfig
  argon2 : Argon2Config
  pasteMaxSize : ℤ
  pasteTTL : Lifetimes
  metadataRetentionDays : ℤ
  auditRetentionDays : ℤ
  rate : RateConfig
  redisExpectedUsers : ℤ
  auditDBEnabled : Bool
  logLevel : Bytes
  metricsListenAddr : Bytes
  noticeText : Bytes

/-- A problem, if there is one. -/
def problem (isBad : Bool) (text : Bytes) : List Bytes := if isBad then [text] else []

namespace Environment

def appBaseURL : Checked Bytes :=
  ⟨trimSlashes (env.required "APP_BASE_URL").value, (env.required "APP_BASE_URL").errs⟩

def trustedProxies : Checked (List Bytes) :=
  let entries := ((env.str "TRUSTED_PROXY_CIDRS" []).splitOn 44).map trimSpace |>.filter (· ≠ [])
  ⟨entries.filter env.isPrefix,
    (entries.filter fun cidr => !env.isPrefix cidr).map fun cidr =>
      ascii "TRUSTED_PROXY_CIDRS: bad cidr " ++ cidr⟩

/-- Certificate and key. -/
def tls : Checked (Bytes × Bytes) :=
  let certFile := env.str "TLS_CERT_FILE" []
  let keyFile := env.str "TLS_KEY_FILE" []
  ⟨(certFile, keyFile), problem ((certFile == []) != (keyFile == []))
    (ascii "TLS_CERT_FILE and TLS_KEY_FILE must be set together")⟩

/-- The keys and the active one. -/
def masterKeys : Checked (Keyring × Bytes) :=
  let secret := env.secret "MASTER_KEYS"
  if secret.errs ≠ [] then ⟨([], []), secret.errs⟩
  else if secret.value = [] then
    ⟨([], []), [ascii "MASTER_KEYS or MASTER_KEYS_FILE is required"]⟩
  else
    match parseMasterKeys secret.value with
    | .error text => ⟨([], []), [ascii "MASTER_KEYS: " ++ text]⟩
    | .ok (keys, first) =>
        let active := env.str "MASTER_KEY_ACTIVE" first
        ⟨(keys, active), problem (!keys.any (·.1 = active))
          (ascii "MASTER_KEY_ACTIVE: unknown key id " ++ active)⟩

def authMode : Option AuthMode :=
  parseAuthMode (env.toLower (env.str "AUTH_MODE" (ascii "local")))

def oidcEnabled : Bool := env.authMode = some .oidcOnly || env.authMode = some .both

def oidc : Checked OIDCSettings :=
  let clientSecret := env.secret "OIDC_CLIENT_SECRET"
  let settings : OIDCSettings :=
    { issuer := env.str "OIDC_ISSUER" []
      clientID := env.str "OIDC_CLIENT_ID" []
      clientSecret := clientSecret.value
      redirectURL := env.appBaseURL.value ++ ascii "/api/v1/auth/oidc/callback"
      scopes := fields (env.str "OIDC_SCOPES" (ascii "openid profile email groups"))
      requiredGroup := env.str "OIDC_REQUIRED_GROUP" []
      groupClaim := env.str "OIDC_GROUP_CLAIM" (ascii "groups")
      adminGroup := env.str "OIDC_ADMIN_GROUP" [] }
  let required :=
    [("OIDC_ISSUER", settings.issuer), ("OIDC_CLIENT_ID", settings.clientID),
      ("OIDC_CLIENT_SECRET", settings.clientSecret),
      ("OIDC_REQUIRED_GROUP", settings.requiredGroup)]
  ⟨settings, clientSecret.errs ++ required.flatMap fun (key, value) =>
    problem (env.oidcEnabled && value == [])
      (ascii key ++ ascii " is required when AUTH_MODE includes oidc")⟩

/-- Idle and absolute life time of a session. -/
def sessionTTLs : Checked (ℤ × ℤ) :=
  let idle := env.dur "SESSION_IDLE_TTL" (8 * hour)
  let absolute := env.dur "SESSION_ABSOLUTE_TTL" (12 * hour)
  ⟨(idle.value, absolute.value), idle.errs ++ absolute.errs ++
    problem (absolute.value < idle.value)
      (ascii "SESSION_ABSOLUTE_TTL must be >= SESSION_IDLE_TTL")⟩

def challenge : Checked ChallengeConfig :=
  let enabled := env.boolv "CHALLENGE_ENABLED" true
  let tolerance := env.intv "CHALLENGE_TOLERANCE_PX" 5
  let ttl := env.intv "CHALLENGE_TTL_SECONDS" 120
  let minSolve := env.intv "CHALLENGE_MIN_SOLVE_MS" 300
  ⟨{ enabled := enabled.value
     tolerancePx := tolerance.value
     ttl := wrap64 (ttl.value * second)
     minSolve := wrap64 (minSolve.value * millisecond) },
    enabled.errs ++ tolerance.errs ++ ttl.errs ++ minSolve.errs⟩

/-- The memory is converted to `uint32` before it is checked. -/
def argon2 : Checked Argon2Config :=
  let maxConcurrent := env.intv "ARGON2_MAX_CONCURRENT" 4
  let queueTimeout := env.dur "ARGON2_QUEUE_TIMEOUT" (2 * second)
  let memory := env.intv "ARGON2_MEMORY_KIB" 32768
  let memoryKiB := (memory.value % 2 ^ 32).toNat
  ⟨{ maxConcurrent := maxConcurrent.value
     queueTimeout := queueTimeout.value
     memoryKiB
     time := 3
     threads := 2 },
    maxConcurrent.errs ++ queueTimeout.errs ++ memory.errs ++
      problem (maxConcurrent.value < 1 || memoryKiB < 8192)
        (ascii "ARGON2_MAX_CONCURRENT must be >= 1 and ARGON2_MEMORY_KIB >= 8192")⟩

def pasteMaxSize : Checked ℤ :=
  let size := parseSize (env.str "PASTE_MAX_SIZE" (ascii "256KB"))
  ⟨size.getD 0, problem size.isNone (ascii "PASTE_MAX_SIZE: " ++ badSize)⟩

end Environment

/-- The first of the checks on the life times that fails. -/
def Lifetimes.problems (ttl : Lifetimes) : List Bytes :=
  if ttl.least < 1 then [ascii "PASTE_TTL_MIN must be >= 1"]
  else if ttl.most > ttl.hardMax then
    [ascii "PASTE_TTL_MAX " ++ formatInt ttl.most ++ ascii " exceeds PASTE_TTL_HARD_MAX " ++
      formatInt ttl.hardMax]
  else if ttl.least > ttl.most then [ascii "PASTE_TTL_MIN must be <= PASTE_TTL_MAX"]
  else if ttl.default < ttl.least ∨ ttl.default > ttl.most then
    [ascii "PASTE_TTL_DEFAULT must be within [PASTE_TTL_MIN, PASTE_TTL_MAX]"]
  else []

namespace Environment

def pasteTTL : Checked Lifetimes :=
  let hardMax := env.intv "PASTE_TTL_HARD_MAX" 900
  let default := env.intv "PASTE_TTL_DEFAULT" 300
  let least := env.intv "PASTE_TTL_MIN" 30
  let most := env.intv "PASTE_TTL_MAX" 900
  let ttl : Lifetimes := ⟨hardMax.value, default.value, least.value, most.value⟩
  ⟨ttl, hardMax.errs ++ default.errs ++ least.errs ++ most.errs ++ ttl.problems⟩

def rate : Checked RateConfig :=
  let paste := env.intv "RATE_PASTE_PER_MIN" 10
  let login := env.intv "RATE_LOGIN_PER_MIN" 5
  let loginIP := env.intv "RATE_LOGIN_IP_PER_MIN" 20
  let unlock := env.intv "RATE_UNLOCK_PER_15MIN" 5
  let unlockIP := env.intv "RATE_UNLOCK_IP_PER_15MIN" 20
  let verify := env.intv "RATE_VERIFY_PER_MIN" 30
  let verifyGlobal := env.intv "RATE_VERIFY_GLOBAL_PER_MIN" 300
  let challenge := env.intv "RATE_CHALLENGE_PER_MIN" 5
  let delete := env.intv "RATE_DELETE_PER_MIN" 30
  ⟨{ loginPerMin := login.value
     loginIPPerMin := loginIP.value
     pastePerMin := paste.value
     challengePerMin := challenge.value
     unlockPer15Min := unlock.value
     unlockIPPer15Min := unlockIP.value
     verifyPerMin := verify.value
     verifyGlobalPerMin := verifyGlobal.value
     deletePerMin := delete.value },
    paste.errs ++ login.errs ++ loginIP.errs ++ unlock.errs ++ unlockIP.errs ++ verify.errs ++
      verifyGlobal.errs ++ challenge.errs ++ delete.errs⟩

/-- Everything that is wrong, in the order in which it is found. -/
def problems : List Bytes :=
  [env.appBaseURL.errs, env.trustedProxies.errs, env.tls.errs, (env.required "DATABASE_URL").errs,
    (env.required "REDIS_URL").errs, env.masterKeys.errs,
    problem env.authMode.isNone (ascii "AUTH_MODE must be local, oidc or both"), env.oidc.errs,
    env.sessionTTLs.errs, (env.boolv "VIEW_REQUIRES_AUTH" false).errs, env.challenge.errs,
    env.argon2.errs, env.pasteMaxSize.errs, env.pasteTTL.errs,
    (env.intv "METADATA_RETENTION_DAYS" 180).errs, (env.intv "AUDIT_RETENTION_DAYS" 365).errs,
    env.rate.errs, (env.intv "REDIS_EXPECTED_USERS" 50).errs,
    (env.boolv "AUDIT_DB_ENABLED" true).errs].flatten

def config : Config where
  appBaseURL := env.appBaseURL.value
  listenAddr := env.str "LISTEN_ADDR" (ascii ":8443")
  trustedProxyCIDRs := env.trustedProxies.value
  tlsCertFile := env.tls.value.1
  tlsKeyFile := env.tls.value.2
  databaseURL := (env.required "DATABASE_URL").value
  redisURL := (env.required "REDIS_URL").value
  redisStateURL := env.str "REDIS_STATE_URL" (env.required "REDIS_URL").value
  masterKeys := env.masterKeys.value.1
  masterKeyActive := env.masterKeys.value.2
  authMode := env.authMode.getD .localOnly
  oidc := env.oidc.value
  sessionIdleTTL := env.sessionTTLs.value.1
  sessionAbsoluteTTL := env.sessionTTLs.value.2
  viewRequiresAuth := (env.boolv "VIEW_REQUIRES_AUTH" false).value
  challenge := env.challenge.value
  argon2 := env.argon2.value
  pasteMaxSize := env.pasteMaxSize.value
  pasteTTL := env.pasteTTL.value
  metadataRetentionDays := (env.intv "METADATA_RETENTION_DAYS" 180).value
  auditRetentionDays := (env.intv "AUDIT_RETENTION_DAYS" 365).value
  rate := env.rate.value
  redisExpectedUsers := (env.intv "REDIS_EXPECTED_USERS" 50).value
  auditDBEnabled := (env.boolv "AUDIT_DB_ENABLED" true).value
  logLevel := env.toLower (env.str "LOG_LEVEL" (ascii "info"))
  metricsListenAddr := env.str "METRICS_LISTEN_ADDR" (ascii "127.0.0.1:9090")
  noticeText := env.str "NOTICE_TEXT" defaultNotice

end Environment

/-- `Load`; the error joins the problems. -/
def load : Except Bytes Config :=
  if env.problems = [] then .ok env.config
  else .error (ascii "config: " ++ (ascii "; ").intercalate env.problems)

theorem load_eq_ok {c : Config} (hload : load env = .ok c) :
    env.problems = [] ∧ c = env.config := by
  unfold load at hload
  split_ifs at hload with hnone
  cases hload
  exact ⟨hnone, rfl⟩

/-- The limits of the paste service. -/
def Config.limits (c : Config) : Limits where
  maxSize := c.pasteMaxSize
  ttlDefault := c.pasteTTL.default
  ttlMin := c.pasteTTL.least
  ttlMax := c.pasteTTL.most

end SecurePastebin.Configuration
