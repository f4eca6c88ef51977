import SecurePastebin.Auth.Types
import SecurePastebin.Store.Pastes

/-!
# The user store

`internal/store/postgres/users.go` with the constraints of the first migration.
The columns that may be NULL read as empty texts, and an empty text is stored as
NULL, which no unique constraint compares (`UpsertOIDC` stores issuer and subject
as they are, but is never called with an empty one).  The creation time is not
modelled.
-/

namespace SecurePastebin.Store

open Text Uuid Auth

/-- The `users` table. -/
abbrev Users := Table User.id

namespace Users

/-- Both rows are of the same person at the same issuer. -/
def sameIdentity (u row : User) : Bool :=
  u.oidcIssuer ≠ [] && u.oidcSubject ≠ [] && row.oidcIssuer = u.oidcIssuer &&
    row.oidcSubject = u.oidcSubject

/-- The texts of a row fit their columns. -/
def fits (u : User) : Bool :=
  fitsText u.username && fitsText u.displayName && fitsText u.oidcIssuer &&
    fitsText u.oidcSubject && fitsText u.passwordHash

/-- `INSERT`, refused where one of the three unique constraints is violated. -/
def insertRow (users : Users) (u : User) : Except Err Users :=
  if users.count (fun row => row.username = u.username || sameIdentity u row) ≠ 0 then
    .error .userExists
  else
    match users.insert u with
    | none => .error .userExists
    | some users' => .ok users'

def create (users : Users) (u : User) : Except Err Users :=
  if !fits u then
    .error (.wrap "postgres: create user" (.message "invalid byte sequence for encoding"))
  else users.insertRow { u with lastLoginAt := none }

def getByID (users : Users) (id : UUID) : Except Err User :=
  match users.find id with
  | none => .error .userNotFound
  | some u => .ok u

def getByUsername (users : Users) (username : Bytes) : Except Err User :=
  match users.rows.find? fun u => u.username = username with
  | none => .error .userNotFound
  | some u => .ok u

/-- What a login through the identity provider updates of a row. -/
def refreshed (u : User) (now : ℤ) (row : User) : User :=
  { row with
    displayName := u.displayName
    isAdmin := u.isAdmin
    lastLoginAt := some (pgTime now) }

/-- The row a first login through the identity provider inserts. -/
def provisioned (u : User) (now : ℤ) : User where
  id := u.id
  username := u.username
  displayName := u.displayName
  provider := .oidc
  oidcIssuer := u.oidcIssuer
  oidcSubject := u.oidcSubject
  passwordHash := []
  isAdmin := u.isAdmin
  disabled := false
  lastLoginAt := some (pgTime now)

/-- The conflict that is resolved by an update is the one on the identity; any
other one is an error. -/
def upsertOIDC (users : Users) (now : ℤ) (u : User) : Except Err (User × Users) :=
  if !fits (provisioned u now) then
    .error (.wrap "postgres: upsert OIDC user" (.message "invalid byte sequence for encoding"))
  else
    match users.rows.find? (sameIdentity u) with
    | some row =>
        .ok (refreshed u now row,
          users.update (fun other => other.id = row.id) (refreshed u now) fun _ => rfl)
    | none => (users.insertRow (provisioned u now)).map (provisioned u now, ·)

def setPasswordHash (users : Users) (id : UUID) (passwordHash : Bytes) : Except Err Users :=
  if !fitsText passwordHash then
    .error (.wrap "postgres: set password hash" (.message "invalid byte sequence for encoding"))
  else .ok (users.update (fun u => u.id = id) (fun u => { u with passwordHash }) fun _ => rfl)

def setDisabled (users : Users) (id : UUID) (disabled : Bool) : Users :=
  users.update (fun u => u.id = id) (fun u => { u with disabled }) fun _ => rfl

def touchLogin (users : Users) (id : UUID) (time : ℤ) : Users :=
  users.update (fun u => u.id = id) (fun u => { u with lastLoginAt := some (pgTime time) })
    fun _ => rfl

end Users

end SecurePastebin.Store
