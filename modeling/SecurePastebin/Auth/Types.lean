import SecurePastebin.Paste.Types

/-!
# Users and sessions

Records and errors of `internal/auth`.
-/

namespace SecurePastebin.Auth

open Text Uuid

inductive Provider where
  | localAccount
  | oidc
  deriving DecidableEq, Repr

/-- One row of the `users` table. -/
structure User where
  id : UUID
  username : Bytes
  displayName : Bytes
  provider : Provider
  oidcIssuer : Bytes
  oidcSubject : Bytes
  passwordHash : Bytes
  isAdmin : Bool
  disabled : Bool
  lastLoginAt : Option ℤ
  deriving DecidableEq

/-- `u.Principal()`. -/
def User.principal (u : User) : Paste.Principal where
  userId := u.id
  username := u.username
  isAdmin := u.isAdmin

structure Session where
  id : Bytes
  userId : UUID
  createdAt : ℤ
  absoluteExpiry : ℤ
  csrfToken : Bytes
  deriving DecidableEq

/-- The sentinel errors, an error of `internal/paste`, any other error, and an
error wrapped with a context. -/
inductive Err where
  | userNotFound
  | userExists
  | badCredentials
  | sessionNotFound
  | notAuthorised
  | oidcStateInvalid
  | paste (err : Paste.Err)
  | message (text : String)
  | wrap (context : String) (inner : Err)
  deriving DecidableEq

/-- `errors.Is(err, target)` for a sentinel of this package. -/
def Err.is (target : Err) : Err → Bool
  | .wrap context inner => decide (Err.wrap context inner = target) || Err.is target inner
  | err => decide (err = target)

end SecurePastebin.Auth
