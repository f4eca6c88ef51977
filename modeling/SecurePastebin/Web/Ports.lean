import SecurePastebin.Auth.Ports
import SecurePastebin.Ratelimit.Limiter
import SecurePastebin.Session.Store
import SecurePastebin.Web.Http

/-!
# The ports of the HTTP layer

The handlers call the paste service, the session store, the authenticators and
the rate limiter, whose own port calls become calls of the handler.  Of the
challenge service, and of the readiness checks, only the interface is there.
-/

namespace SecurePastebin.Web

open Text Uuid Process

/-- An issued challenge. -/
structure Issued where
  id : Bytes
  backgroundPNG : Bytes
  piecePNG : Bytes
  pieceY : ℤ
  width : ℤ
  height : ℤ
  expiresIn : ℤ
  deriving DecidableEq

inductive Call where
  | paste (call : Paste.Call)
  | session (call : Session.Call)
  | auth (call : Auth.Call)
  | limit (call : Ratelimit.Call)
  | challengeIssue (userId : UUID)
  | challengeVerify (userId : UUID) (challengeId : Bytes) (x : ℤ)
  | challengeConsume (userId : UUID) (token : Bytes)
  | ready (check : Bytes)
  deriving DecidableEq

/-- What a call returns; a readiness check gives the text of its error. -/
@[reducible]
def Call.Reply : Call → Type
  | .paste call => call.Reply
  | .session call => call.Reply
  | .auth call => call.Reply
  | .limit call => call.Reply
  | .challengeIssue _ => Except ChallengeErr Issued
  | .challengeVerify .. => Except ChallengeErr Bytes
  | .challengeConsume .. => Except ChallengeErr Unit
  | .ready _ => Option Bytes

/-- Programs over the ports. -/
abbrev Port := Proc Call Call.Reply

/-- One answered call. -/
abbrev Step := Entry Call Call.Reply

def pasteCalls : Embedding Paste.Call Paste.Call.Reply Call Call.Reply := ⟨.paste, fun _ => .refl _⟩

def sessionCalls : Embedding Session.Call Session.Call.Reply Call Call.Reply :=
  ⟨.session, fun _ => .refl _⟩

def authCalls : Embedding Auth.Call Auth.Call.Reply Call Call.Reply := ⟨.auth, fun _ => .refl _⟩

def limitCalls : Embedding Ratelimit.Call Ratelimit.Call.Reply Call Call.Reply :=
  ⟨.limit, fun _ => .refl _⟩

namespace Port

variable {Value : Type}

def ofPaste (program : Paste.Port Value) : Port Value := program.lift pasteCalls

def ofSession (program : Session.Port Value) : Port Value := program.lift sessionCalls

def ofAuth (program : Auth.Port Value) : Port Value := program.lift authCalls

def ofLimiter (program : Ratelimit.Port Value) : Port Value := program.lift limitCalls

abbrev now : Port ℤ := .perform (Call.auth .now)

abbrev auditRecord (event : Auth.Event) : Port Unit := .perform (Call.auth (.auditRecord event))

abbrev usersGetByID (id : UUID) : Port (Except Auth.Err Auth.User) :=
  .perform (Call.auth (.usersGetByID id))

abbrev challengeIssue (userId : UUID) : Port (Except ChallengeErr Issued) :=
  .perform (Call.challengeIssue userId)

abbrev challengeVerify (userId : UUID) (challengeId : Bytes) (x : ℤ) :
    Port (Except ChallengeErr Bytes) := .perform (Call.challengeVerify userId challengeId x)

abbrev challengeConsume (userId : UUID) (token : Bytes) : Port (Except ChallengeErr Unit) :=
  .perform (Call.challengeConsume userId token)

abbrev ready (check : Bytes) : Port (Option Bytes) := .perform (Call.ready check)

end Port

end SecurePastebin.Web
