import SecurePastebin.Auth.Types
import SecurePastebin.Core.Json
import SecurePastebin.Paste.Service

/-!
# Requests and responses

What the HTTP layer reads of a request and what it answers.  Of a body, the
JSON value the decoder finds in it is given; the header fields that are the same
in every response, and the escaping of a redirect's location, are left out.
-/

namespace SecurePastebin.Web

open Text Uuid
open Paste (trimSpace)

/-! ## Requests -/

inductive Method where
  | get
  | head
  | options
  | post
  | delete
  | connect
  | other (text : Bytes)
  deriving DecidableEq

/-- What the JSON decoder finds in a body: a value, no value, or that the body
goes on beyond its size limit. -/
inductive Body where
  | value (value : Json.Value)
  | malformed
  | tooLarge

/-- Decode escapes, and a plus sign as a space where it stands for one. -/
def percentDecode (plus : Bool) : Bytes → Option Bytes
  | [] => some []
  | 37 :: high :: low :: rest => do
      let byte ← byteOfHex high low
      return byte :: (← percentDecode plus rest)
  | 37 :: _ => none
  | byte :: rest => do
      return (if plus && byte = 43 then 32 else byte) :: (← percentDecode plus rest)

/-- A request that a handler is given; one with a malformed escape in its path is
refused before. -/
structure Request where
  method : Method
  /-- The path as it was sent, with its escapes. -/
  target : Bytes
  escaped : (percentDecode false target).isSome = true
  rawQuery : Bytes
  /-- The session cookie. -/
  cookie : Option Bytes
  /-- The header `X-CSRF-Token`. -/
  csrfToken : Bytes
  accept : Bytes
  /-- The host of the peer's address. -/
  remoteHost : Bytes
  /-- The lines of `X-Forwarded-For`. -/
  forwardedFor : List Bytes
  body : Body

/-- `url.PathUnescape`, the text itself where an escape is malformed. -/
def pathUnescape (text : Bytes) : Bytes := (percentDecode false text).getD text

/-- `r.URL.Path`. -/
def Request.path (r : Request) : Bytes := pathUnescape r.target

/-- The segments of a path, with its escapes; a final slash is an empty one. -/
def rawSegments (path : Bytes) : List Bytes := (path.splitOn 47).tail

/-- The segments routes are matched against. -/
def Request.segments (r : Request) : List Bytes := (rawSegments r.target).map pathUnescape

/-- Remove empty segments and dots, innermost segment first. -/
def cleanSegments (segments : List Bytes) : List Bytes :=
  segments.foldl (fun kept segment =>
    if segment = [] ∨ segment = ascii "." then kept
    else if segment = ascii ".." then kept.tail
    else segment :: kept) []

/-- `cleanPath` of `net/http`. -/
def cleanPath (path : Bytes) : Bytes :=
  let rooted := if path.head? = some 47 then path else 47 :: path
  let kept := (cleanSegments (rawSegments rooted)).reverse
  let cleaned := 47 :: (ascii "/").intercalate kept
  if rooted.getLast? = some 47 ∧ kept ≠ [] then cleaned ++ [47] else cleaned

/-- One parameter of a query; one that is malformed is skipped. -/
def queryParam (part : Bytes) : Option (Bytes × Bytes) :=
  if part = [] ∨ part.contains 59 then none
  else do
    let name ← percentDecode true (part.takeWhile (· ≠ 61))
    let value ← percentDecode true ((part.dropWhile (· ≠ 61)).drop 1)
    return (name, value)

/-- `r.URL.Query().Get(name)`. -/
def Request.query (r : Request) (name : String) : Bytes :=
  (((r.rawQuery.splitOn 38).filterMap queryParam).lookup (ascii name)).getD []

/-- `clientIP`: behind a trusted proxy the last address of the header's first
line. -/
def clientIP (trusted : Bytes → Bool) (r : Request) : Bytes :=
  if trusted r.remoteHost then
    let last := trimSpace (((r.forwardedFor.headD []).splitOn 44).getLastD [])
    if last ≠ [] then last else r.remoteHost
  else r.remoteHost

/-! ## Responses -/

inductive SetCookie where
  | set (value : Bytes) (expires : ℤ) (secure : Bool)
  | clear (secure : Bool)

inductive Content where
  | empty
  | json (value : Json.Value)
  | attachment (name content : Bytes)
  | text (text : String)

structure Response where
  status : ℕ
  location : Option Bytes
  retryAfter : Option ℤ
  cookie : Option SetCookie
  content : Content

def writeJSON (status : ℕ) (value : Json.Value) : Response := ⟨status, none, none, none, .json value⟩

def noContent : Response := ⟨204, none, none, none, .empty⟩

def redirect (status : ℕ) (location : Bytes) : Response :=
  ⟨status, some location, none, none, .empty⟩

def jsonText (text : String) : Json.Value := .string (ascii text)

def jsonInt (value : ℤ) : Json.Value := .number (formatInt value)

/-- A JSON object given by its members. -/
def jsonObject (members : List (String × Json.Value)) : Json.Value :=
  .object (members.map fun member => (ascii member.1, member.2))

def writeError (status : ℕ) (code : String) (message : Bytes)
    (details : List (String × Json.Value)) : Response :=
  writeJSON status (jsonObject [("error", jsonObject
    ([("code", jsonText code), ("message", .string message)] ++
      if details.isEmpty then [] else [("details", jsonObject details)]))])

/-! ## Errors -/

/-- The errors of `internal/challenge`. -/
inductive ChallengeErr where
  | notFound
  | failed
  | tokenInvalid
  | other (text : String)
  deriving DecidableEq

/-- An error a handler is left with. -/
inductive Failure where
  | paste (err : Paste.Err)
  | auth (err : Auth.Err)
  | challenge (err : ChallengeErr)
  deriving DecidableEq

/-- `err.Error()`. -/
def pasteText : Paste.Err → Bytes
  | .notFound => ascii "paste: not found"
  | .expired => ascii "paste: expired"
  | .deleted => ascii "paste: deleted"
  | .unavailable => ascii "paste: body unavailable"
  | .wrongPassword => ascii "paste: wrong password"
  | .passwordRequired => ascii "paste: password required"
  | .forbidden => ascii "paste: forbidden"
  | .invalidUTF8 => ascii "paste: content is not valid UTF-8"
  | .invalidTTL => ascii "paste: ttl out of range"
  | .invalidPassword => ascii "paste: password must be 1-128 characters"
  | .kdfBusy => ascii "paste: key derivation busy"
  | .keyUnavailable => ascii "paste: master key unavailable"
  | .challengeRequired => ascii "paste: challenge required"
  | .tooLarge limit actual =>
      ascii "paste: too large (" ++ formatInt actual ++ ascii " bytes, limit " ++
        formatInt limit ++ ascii ")"
  | .message text => ascii text
  | .wrap context inner => ascii context ++ ascii ": " ++ pasteText inner

def authText : Auth.Err → Bytes
  | .userNotFound => ascii "auth: user not found"
  | .userExists => ascii "auth: user already exists"
  | .badCredentials => ascii "auth: bad credentials"
  | .sessionNotFound => ascii "auth: session not found"
  | .notAuthorised => ascii "auth: not authorised"
  | .oidcStateInvalid => ascii "auth: oidc state invalid"
  | .paste err => pasteText err
  | .message text => ascii text
  | .wrap context inner => ascii context ++ ascii ": " ++ authText inner

def challengeText : ChallengeErr → Bytes
  | .notFound => ascii "challenge: not found or expired"
  | .failed => ascii "challenge: wrong position or too fast"
  | .tokenInvalid => ascii "challenge: token invalid or used"
  | .other text => ascii text

def Failure.text : Failure → Bytes
  | .paste err => pasteText err
  | .auth err => authText err
  | .challenge err => challengeText err

/-- The error of `internal/paste` an error of `internal/auth` wraps. -/
def pasteErr? : Auth.Err → Option Paste.Err
  | .paste err => some err
  | .wrap _ inner => pasteErr? inner
  | _ => none

namespace Failure

/-- `errors.Is(err, target)` for a sentinel of `internal/paste`. -/
def isPaste (target : Paste.Err) : Failure → Bool
  | .paste err => Paste.Err.is target err
  | .auth err => (pasteErr? err).any (Paste.Err.is target)
  | .challenge _ => false

def isAuth (target : Auth.Err) : Failure → Bool
  | .auth err => Auth.Err.is target err
  | _ => false

def isChallenge (target : ChallengeErr) (failure : Failure) : Bool := failure = .challenge target

end Failure

def tooLargeOf : Paste.Err → Option (ℤ × ℤ)
  | .tooLarge limit actual => some (limit, actual)
  | .wrap _ inner => tooLargeOf inner
  | _ => none

/-- `errors.As(err, &tooLarge)`: limit and actual size. -/
def Failure.tooLarge? : Failure → Option (ℤ × ℤ)
  | .paste err => tooLargeOf err
  | .auth err => (pasteErr? err).bind tooLargeOf
  | .challenge _ => none

/-- Status, code and details of an error. -/
def mapError (failure : Failure) : ℕ × String × List (String × Json.Value) :=
  match failure.tooLarge? with
  | some (limit, actual) =>
      (413, "paste_too_large", [("actual_bytes", jsonInt actual), ("limit_bytes", jsonInt limit)])
  | none =>
      if failure.isPaste .notFound || failure.isAuth .userNotFound ||
          failure.isChallenge .notFound then (404, "not_found", [])
      else if failure.isPaste .expired then (410, "expired", [])
      else if failure.isPaste .deleted then (410, "deleted", [])
      else if failure.isPaste .unavailable then (410, "unavailable", [])
      else if failure.isPaste .wrongPassword then (401, "wrong_password", [])
      else if failure.isPaste .passwordRequired then (401, "password_required", [])
      else if failure.isAuth .badCredentials then (401, "bad_credentials", [])
      else if failure.isAuth .sessionNotFound then (401, "unauthenticated", [])
      else if failure.isPaste .forbidden then (403, "forbidden", [])
      else if failure.isAuth .notAuthorised || failure.isAuth .oidcStateInvalid then
        (403, "not_authorised", [])
      else if failure.isPaste .challengeRequired || failure.isChallenge .tokenInvalid then
        (403, "challenge_required", [])
      else if failure.isChallenge .failed then (400, "challenge_failed", [])
      else if failure.isPaste .invalidUTF8 then (400, "invalid_utf8", [])
      else if failure.isPaste .invalidTTL then (400, "invalid_ttl", [])
      else if failure.isPaste .invalidPassword then (400, "invalid_password", [])
      else if failure.isPaste .kdfBusy then (503, "kdf_busy", [])
      else if failure.isPaste .keyUnavailable then (500, "key_unavailable", [])
      else (500, "internal", [])

/-- `h.fail`: the text of an internal error is not shown. -/
def fail (failure : Failure) : Response :=
  let (status, code, details) := mapError failure
  let message := if status ≥ 500 ∧ code = "internal" then ascii "internal error" else failure.text
  { writeError status code message details with
    retryAfter := if status = 503 then some 2 else none }

end SecurePastebin.Web
